import SharpLint.Proofs.Syntax.Place

/-!
# Nodes Found at Their Spans

A node is looked up by its span and kind from below: the search starts at the
smallest node that covers the span and climbs, until a node reaches over the
span. Several nested nodes may have one span, and siblings may touch, so it is
the order of the spans in the tree that decides whether the climb passes all
nodes of the span. It does: two children of a node never cover a span that is
not empty, so the nodes that cover it stand above one another, the smallest
is below them all, and those of exactly this span come first on the way up.

All this needs no more than a tree whose children stand in order inside their
parents. Empty nodes may stand among them.

## Main definitions

* `Place.CoversLeast`: a node covers a span, and no child of it does.

## Theorems

* `Place.covering_least`: The search starts at a smallest covering node, which is
  below all others.
* `Place.CoversLeast.unique`: There is one smallest covering node at most.
* `Place.mem_climb`: The climb passes every node of the span.
* `nodes_are_found_by_span`: A node is found exactly if there is one, and it is right.
-/

namespace SharpLint

namespace Tree

/-- Ordered trees do not start before their bound, and none ends before it
    starts. -/
theorem Ordered.mem {bound : Nat} {trees : List Tree} (h : Ordered bound trees) {tree : Tree}
    (hmem : tree ∈ trees) : bound ≤ tree.span.start ∧ tree.span.start ≤ tree.span.stop := by
  induction trees generalizing bound with
  | nil => exact absurd hmem List.not_mem_nil
  | cons first trees ih =>
      obtain ⟨hbound, hproper, hrest⟩ := h
      rcases List.mem_cons.1 hmem with rfl | hmem
      · exact ⟨hbound, hproper⟩
      · have hlater := ih hrest hmem
        omega

theorem Ordered.stop_le_start {bound : Nat} {trees : List Tree} (h : Ordered bound trees)
    {m n : Nat} {a b : Tree} (hmn : m < n) (ha : trees[m]? = some a) (hb : trees[n]? = some b) :
    a.span.stop ≤ b.span.start := by
  induction trees generalizing bound m n with
  | nil => exact absurd ha (by simp only [List.getElem?_nil, reduceCtorEq, not_false_eq_true])
  | cons first trees ih =>
      obtain ⟨-, -, hrest⟩ := h
      obtain ⟨k, rfl⟩ := Nat.exists_eq_succ_of_ne_zero (Nat.ne_zero_of_lt hmn)
      rw [List.getElem?_cons_succ] at hb
      cases m with
      | zero =>
          rw [List.getElem?_cons_zero, Option.some.injEq] at ha
          exact ha ▸ (hrest.mem (List.mem_of_getElem? hb)).1
      | succ m =>
          rw [List.getElem?_cons_succ] at ha
          exact ih hrest (Nat.lt_of_succ_lt_succ hmn) ha hb

end Tree

namespace Place

variable {p q : Place} {span : Span}

theorem within_trans {a b c : Span} (hab : a.within b = true) (hbc : b.within c = true) :
    a.within c = true := by
  rw [Span.within_iff] at hab hbc ⊢
  omega

/-! ### Well-formed trees -/

theorem Below.wellFormed (h : Below p q) (hp : p.node.WellFormed) : q.node.WellFormed := by
  induction h with
  | refl => exact hp
  | step above child ih =>
      obtain ⟨-, -, -, hbelow⟩ := ih
      exact hbelow _ (mem_of_child? child)

/-- A node below another lies inside it. -/
theorem Below.within (h : Below p q) (hp : p.node.WellFormed) : q.span.within p.span = true := by
  rw [Span.within_iff]
  induction h with
  | refl => exact ⟨Nat.le_refl _, Nat.le_refl _⟩
  | @step parent child n above hchild ih =>
      obtain ⟨-, hordered, hinside, -⟩ := above.wellFormed hp
      have hstart := (hordered.mem (mem_of_child? hchild)).1
      have hstop := hinside _ (mem_of_child? hchild)
      exact ⟨Nat.le_trans ih.1 hstart, Nat.le_trans hstop ih.2⟩

/-! ### The smallest node over a span -/

/-- The node covers the span, and none of its children does. -/
structure CoversLeast (p : Place) (span : Span) : Prop where
  covers : span.within p.span = true
  least : ∀ n child, p.child? n = some child → span.within child.span = false

/-- One child at most covers a span that is not empty. -/
theorem eq_of_covering {a b : Place} {m n : Nat} (hp : p.node.WellFormed)
    (hspan : span.start < span.stop) (ha : p.child? m = some a) (hb : p.child? n = some b)
    (haCovers : span.within a.span = true) (hbCovers : span.within b.span = true) : a = b := by
  obtain ⟨-, hordered, -, -⟩ := hp
  have haReach := Span.within_iff.1 haCovers
  have hbReach := Span.within_iff.1 hbCovers
  have haNode := (child?_eq_some.1 ha).1
  have hbNode := (child?_eq_some.1 hb).1
  rcases Nat.lt_trichotomy m n with hlt | rfl | hlt
  · have horder : a.span.stop ≤ b.span.start := hordered.stop_le_start hlt haNode hbNode
    omega
  · exact Option.some.inj (ha.symm.trans hb)
  · have horder : b.span.stop ≤ a.span.start := hordered.stop_le_start hlt hbNode haNode
    omega

/-- Where the search for a span starts: at a smallest node that covers it, which
    is below all nodes that do. -/
theorem covering_least {tree : Tree} (h : tree.WellFormed) (above : List (Tree × Nat))
    (hspan : span.start < span.stop) (hcovers : span.within tree.span = true) :
    ((⟨tree, above⟩ : Place).covering span).CoversLeast span
      ∧ ∀ q, Below ⟨tree, above⟩ q → span.within q.span = true →
        Below q ((⟨tree, above⟩ : Place).covering span) := by
  -- By induction on the tree: the search goes on in the child that covers the span.
  induction h generalizing above with
  | @intro tree proper ordered inside below ih =>
      have hchild? {q : Place} (hq : Below ⟨tree, above⟩ q) (hqCovers : span.within q.span = true) :
          q = ⟨tree, above⟩ ∨ ∃ n child, (⟨tree, above⟩ : Place).child? n = some child
            ∧ Below child q ∧ span.within child.span = true := by
        rcases hq.head with rfl | ⟨n, child, hchild, hq⟩
        · exact .inl rfl
        · have hinside := hq.within (below child.node (mem_of_child? hchild))
          exact .inr ⟨n, child, hchild, hq, within_trans hqCovers hinside⟩
      by_cases hsome : ∃ n child, (⟨tree, above⟩ : Place).child? n = some child
          ∧ span.within child.span = true
      · obtain ⟨n, child, hchild, hchildCovers⟩ := hsome
        have hreach := Span.within_iff.1 hchildCovers
        have hcovering : (⟨tree, above⟩ : Place).covering span = child.covering span :=
          covering_child hchild hspan (fun m other hlt hother => Nat.le_trans
            (ordered.stop_le_start hlt (child?_eq_some.1 hother).1 (child?_eq_some.1 hchild).1)
            hreach.1) hreach.1 hreach.2
        obtain ⟨hleast, hbelow⟩ := ih child.node (mem_of_child? hchild) child.above hchildCovers
        rw [hcovering]
        refine ⟨hleast, fun q hq hqCovers => ?_⟩
        rcases hchild? hq hqCovers with rfl | ⟨m, other, hother, hq, hotherCovers⟩
        · exact (Below.step .refl hchild).trans (below_coveringFrom span child.above child.node)
        · obtain rfl := eq_of_covering (.intro proper ordered inside below) hspan hother hchild
            hotherCovers hchildCovers
          exact hbelow q hq hqCovers
      · have hnone : ∀ n child, (⟨tree, above⟩ : Place).child? n = some child →
            span.within child.span = false := fun n child hchild =>
          Bool.eq_false_iff.2 fun hchildCovers => hsome ⟨n, child, hchild, hchildCovers⟩
        have hcovering : (⟨tree, above⟩ : Place).covering span = ⟨tree, above⟩ :=
          covering_self fun n child hchild hreach =>
            hsome ⟨n, child, hchild, Span.within_iff.2 hreach⟩
        rw [hcovering]
        refine ⟨⟨hcovers, hnone⟩, fun q hq hqCovers => ?_⟩
        rcases hchild? hq hqCovers with rfl | ⟨n, child, hchild, -, hchildCovers⟩
        · exact .refl
        · exact absurd ⟨n, child, hchild, hchildCovers⟩ hsome

/-- The search starts at every node that is a smallest one over the span, so
    there is one at most. -/
theorem CoversLeast.unique {tree : Tree} (htree : tree.WellFormed) (hspan : span.start < span.stop)
    (hp : Below (root tree) p) (h : p.CoversLeast span) : (root tree).covering span = p := by
  have hcovers : span.within tree.span = true := within_trans h.covers (hp.within htree)
  obtain ⟨hleast, hbelow⟩ := covering_least htree [] hspan hcovers
  rcases (hbelow p hp h.covers).head with heq | ⟨n, child, hchild, hq⟩
  · exact heq
  · have hinside := hq.within ((hp.trans (.step .refl hchild)).wellFormed htree)
    have hchildCovers := within_trans hleast.covers hinside
    rw [h.least n child hchild] at hchildCovers
    exact absurd hchildCovers Bool.false_ne_true

/-! ### The climb -/

/-- On the way up from a node below, a node is reached if nothing stops the
    climb below it. -/
theorem mem_climb {ok : Place → Bool} (h : Below q p) (hok : ∀ node, Below q node → ok node = true) :
    q ∈ (p :: p.ancestors).takeWhile ok := by
  induction h with
  | refl =>
      rw [List.takeWhile_cons_of_pos (hok q .refl)]
      exact List.mem_cons_self
  | @step parent child n above hchild ih =>
      rw [ancestors_of_child? hchild, List.takeWhile_cons_of_pos (hok child (.step above hchild))]
      exact List.mem_cons_of_mem _ ih

/-- The lookup finds a node wherever there is one. -/
theorem exists_at? {tree : Tree} (htree : tree.WellFormed) (hspan : span.start < span.stop)
    (hp : Below (root tree) p) (hpSpan : p.span = span) :
    ∃ found, (root tree).at? span p.kind = some found := by
  subst hpSpan
  have hself : p.span.within p.span = true := Span.within_iff.2 ⟨Nat.le_refl _, Nat.le_refl _⟩
  obtain ⟨-, hbelow⟩ := covering_least htree [] hspan (hp.within htree)
  -- What is between the smallest node and this one lies inside this one.
  have hmem : p ∈ ((root tree).covering p.span :: ((root tree).covering p.span).ancestors).takeWhile
      fun node => node.span.within p.span :=
    mem_climb (hbelow p hp hself) fun node hnode => hnode.within (hp.wellFormed htree)
  refine Option.isSome_iff_exists.1 (List.find?_isSome.2 ⟨p, hmem, ?_⟩)
  rw [isA_iff.2 rfl, Bool.true_and, beq_iff_eq]

end Place

open Place in
/-- A document has a node of a kind and a span that is not empty exactly if one
    is found there, and what is found is such a node. The search starts at the
    smallest node that covers the span, where there is one. -/
theorem nodes_are_found_by_span (source : Text) {span : Span} (kind : Kind)
    (hspan : span.start < span.stop) :
    ((∃ found, (Document.parse source).root.at? span kind = some found)
        ↔ ∃ node ∈ (Document.parse source).root.descendants, node.kind = kind ∧ node.span = span)
      ∧ (∀ found, (Document.parse source).root.at? span kind = some found →
        found ∈ (Document.parse source).root.descendants ∧ found.kind = kind ∧ found.span = span)
      ∧ ∀ node ∈ (Document.parse source).root.descendants, node.CoversLeast span →
        (Document.parse source).root.covering span = node := by
  have hwell := (Document.parse_sound source).wellFormed
  have hfound {found : Place} (h : (Document.parse source).root.at? span kind = some found) :
      found ∈ (Document.parse source).root.descendants ∧ found.kind = kind ∧ found.span = span := by
    obtain ⟨hbelow, hkind, hfoundSpan⟩ := below_of_at? h
    exact ⟨mem_descendants.2 hbelow, hkind, hfoundSpan⟩
  refine ⟨⟨?_, ?_⟩, fun found h => hfound h, fun node hnode h =>
    h.unique hwell hspan (mem_descendants.1 hnode)⟩
  · rintro ⟨found, h⟩
    exact ⟨found, hfound h⟩
  · rintro ⟨node, hnode, rfl, hnodeSpan⟩
    exact exists_at? hwell hspan (mem_descendants.1 hnode) hnodeSpan

/-- A call whose argument is a name, which spans as much. -/
def argumentSource : Text :=
  "class C \x7b C() \x7b F(x); \x7d \x7d".toList

set_option maxRecDepth 100000 in
theorem nodes_are_found_by_span_nested :
    (∃ argument ∈ (Document.parse argumentSource).root.descendants,
        argument.kind = .argument ∧ argument.span = ⟨18, 19⟩)
      ∧ (∃ name ∈ (Document.parse argumentSource).root.descendants,
        name.kind = .identifier ∧ name.span = ⟨18, 19⟩)
      ∧ ¬∃ parameter ∈ (Document.parse argumentSource).root.descendants,
        parameter.kind = .parameter ∧ parameter.span = ⟨18, 19⟩ := by
  have hexact (kind : Kind) :=
    (@nodes_are_found_by_span argumentSource ⟨18, 19⟩ kind (by decide)).1
  have hlookup : ([Kind.argument, .identifier, .parameter].map fun kind =>
      ((Document.parse argumentSource).root.at? ⟨18, 19⟩ kind).isSome) = [true, true, false] := by
    decide +kernel
  simp only [List.map_cons, List.map_nil, List.cons.injEq, and_true] at hlookup
  obtain ⟨hargument, hname, hparameter⟩ := hlookup
  refine ⟨(hexact .argument).1 (Option.isSome_iff_exists.1 hargument),
    (hexact .identifier).1 (Option.isSome_iff_exists.1 hname), fun h => ?_⟩
  rw [Option.isSome_iff_exists.2 ((hexact .parameter).2 h)] at hparameter
  exact absurd hparameter.symm Bool.false_ne_true

end SharpLint

import SharpLint.Proofs.Syntax.Closing

/-!
# Nodes End with Ink

Nearly every node ends with a token of ink: down the last children one comes to
a token, and comments and directives are never last. The nodes that need not
are those that end where the line or a format string does. As for the first
token of a node, this is read off the grammar, by a bound on the kind of the
last tree that a form reads, extras aside.

## Main definitions

* `Kind.mayClose`: whether a node may end with a child of the kind.
* `Form.lastWithin`: a bound on the kind of the last tree that a form reads.
* `Tree.Ended`: the node ends with a child that may close it.
* `Document.Ended`: every node of the document does.

## Theorems

* `Grammar.Reads.last`: The last tree that a form reads is of a kind that may
  come last.
* `Document.parse_ended`: Every node of a parsed document ends as it should.
* `Document.Has.exists_last_token`: A node ends with a token of ink.
-/

namespace SharpLint

/-- Whether a node may end with a child of the kind. A directive of its own
    line and a format string end without ink. -/
def Kind.mayClose (kind : Kind) : Bool :=
  kind.mayOpen && kind != .preprocElif && kind != .interpolationFormatClause

/-- Whether the kind is that of a node which stands inside the grammar. -/
def Kind.isRegular (kind : Kind) : Bool :=
  !kind.isExtra

/-- The phrases that end with ink. Another branch of a conditional directive
    ends where the line does. -/
def Phrase.mayClose : Phrase → Bool
  | .alternative _ => false
  | phrase => phrase.isProper

namespace Form

/-- The last tree that the form reads, extras aside, is of a kind that
    satisfies `ok`, if it is so with the phrases that satisfy `okCall` and no
    others are called. -/
def lastWithin (ok : Kind → Bool) (okCall : Phrase → Bool) : Form → Bool
  | token kind _ _ => ok kind
  | node kind _ => ok kind
  | seq first second =>
    lastWithin ok okCall second && (isNonempty second || lastWithin ok okCall first)
  | alt first second => lastWithin ok okCall first && lastWithin ok okCall second
  | many form => lastWithin ok okCall form
  | label _ form => lastWithin ok okCall form
  | call phrase => okCall phrase
  | grow base step => lastWithin ok okCall base && lastWithin ok okCall step
  | _ => true

/-- What is asked of one part of a form. -/
def isEnded : Form → Bool
  | token kind _ _ => kind.isRegular
  | node kind form =>
    kind.isRegular && (!kind.mayClose || form.lastWithin Kind.mayClose Phrase.mayClose)
  | _ => true

/-- A form whose parts pass the check begins with no comment or directive. -/
theorem firstWithin_of_isEnded {form : Form} (h : form.everywhere isEnded = true) :
    form.firstWithin Kind.isRegular (fun _ => true) = true := by
  induction form with
  | token kind lexeme gap => exact h
  | node kind form =>
      simp only [everywhere, isEnded, Bool.and_eq_true] at h
      exact h.1.1
  | seq first second ihFirst ihSecond | alt first second ihFirst ihSecond
  | grow first second ihFirst ihSecond =>
      simp only [everywhere, Bool.and_eq_true] at h
      simp only [firstWithin, ihFirst h.1.2, ihSecond h.2, Bool.or_true, Bool.and_self]
  | many form ih | label part form ih =>
      simp only [everywhere, Bool.and_eq_true] at h
      exact ih h.2
  | _ => rfl

end Form

/-- What is asked of the form of a phrase. -/
def Phrase.ends (phrase : Phrase) (form : Form) : Bool :=
  (!phrase.mayClose || form.lastWithin Kind.mayClose Phrase.mayClose)
    && form.everywhere Form.isEnded

/-- The node ends with a child that may close it, if it is of a kind that
    does. A source may be empty. -/
def Tree.Ended (tree : Tree) : Prop :=
  tree.lexeme = "" → tree.kind.mayClose = true → tree.kind ≠ .compilationUnit →
    ∃ before last, tree.children = before ++ [last] ∧ last.kind.mayClose = true

namespace Tree

theorem ended_of_lexeme {tree : Tree} (h : tree.lexeme ≠ "") : tree.Ended :=
  fun hempty => absurd hempty h

theorem ended_of_not_mayClose {tree : Tree} (h : tree.kind.mayClose = false) : tree.Ended :=
  fun _ hclose => absurd (h.symm.trans hclose) Bool.false_ne_true

/-- How a node ends does not depend on its label. -/
theorem Ended.relabel {tree : Tree} (h : Every Ended tree) (label : Option Label) :
    Every Ended { tree with label } :=
  .intro h.here fun _ hchild => h.child hchild

end Tree

namespace Grammar

/-- Every phrase of the grammar ends as it should. -/
def Ends (grammar : Grammar) : Prop :=
  ∀ phrase : Phrase, phrase.ends (grammar phrase) = true

variable {grammar : Grammar}

theorem Ends.last (h : grammar.Ends) {phrase : Phrase} (hphrase : phrase.mayClose = true) :
    (grammar phrase).lastWithin Kind.mayClose Phrase.mayClose = true := by
  have hends := h phrase
  simp only [Phrase.ends, Bool.and_eq_true, hphrase, Bool.not_true, Bool.false_or] at hends
  exact hends.1

theorem Ends.everywhere (h : grammar.Ends) : grammar.Everywhere Form.isEnded := by
  intro phrase
  have hends := h phrase
  simp only [Phrase.ends, Bool.and_eq_true] at hends
  exact hends.2

/-! ### The last tree -/

/-- The kind of the last tree, extras aside. -/
def lastKind? (trees : List Tree) : Option Kind :=
  ((trees.map Tree.kind).filter Kind.isRegular).getLast?

theorem lastKind?_append (trees more : List Tree) :
    lastKind? (trees ++ more) = (lastKind? more).or (lastKind? trees) := by
  simp only [lastKind?, List.map_append, List.filter_append, List.getLast?_append]

theorem lastKind?_extras {extras : List Tree} (h : ∀ extra ∈ extras, extra.isExtra = true) :
    lastKind? extras = none := by
  rw [lastKind?, List.getLast?_eq_none_iff, List.filter_eq_nil_iff]
  intro kind hkind
  obtain ⟨extra, hextra, rfl⟩ := List.mem_map.1 hkind
  rw [Kind.isRegular, show extra.kind.isExtra = true from h extra hextra]
  decide

theorem lastKind?_singleton {tree : Tree} (h : tree.isExtra = false) :
    lastKind? [tree] = some tree.kind := by
  have hregular : tree.kind.isRegular = true := by
    rw [Kind.isRegular, show tree.kind.isExtra = false from h]
    rfl
  simp only [lastKind?, List.map_cons, List.map_nil, List.filter_cons_of_pos hregular,
    List.filter_nil, List.getLast?_singleton]

/-- Of a tree and the extras behind it, the tree comes last. -/
theorem kind_of_lastKind?_cons {tree : Tree} {extras : List Tree}
    (hextras : ∀ extra ∈ extras, extra.isExtra = true) {kind : Kind}
    (h : lastKind? (tree :: extras) = some kind) : tree.kind = kind := by
  rw [← List.singleton_append, lastKind?_append, lastKind?_extras hextras, Option.none_or] at h
  cases htree : tree.isExtra with
  | true =>
      have hnone : lastKind? [tree] = none := lastKind?_extras (by
        simpa only [List.mem_singleton, forall_eq] using htree)
      rw [h] at hnone
      exact absurd hnone (Option.some_ne_none kind)
  | false =>
      rw [lastKind?_singleton htree] at h
      exact Option.some.inj h

/-- A form that is never empty reads a tree that is no extra. -/
theorem Reads.lastKind?_ne_none (hnodes : grammar.NodesRight) (hgrammar : grammar.Ends)
    {form : Form} {cursor after : Cursor} {trees : List Tree}
    (h : Reads grammar form cursor trees after) (hends : form.everywhere Form.isEnded = true)
    (hform : form.isNonempty = true) : lastKind? trees ≠ none := by
  obtain ⟨first, rest, rfl⟩ := List.exists_cons_of_ne_nil (h.ne_nil hnodes hform)
  have hregular : first.kind.isRegular = true :=
    h.first hnodes (fun phrase _ => Form.firstWithin_of_isEnded (hgrammar.everywhere phrase))
      (Form.firstWithin_of_isEnded hends) rfl
  rw [lastKind?, Ne, List.getLast?_eq_none_iff, List.map_cons, List.filter_cons_of_pos hregular]
  exact List.cons_ne_nil _ _

/-- The last tree that a form reads is of a kind that may come last. -/
theorem Reads.last (hnodes : grammar.NodesRight) (hgrammar : grammar.Ends) {form : Form}
    {cursor after : Cursor} {trees : List Tree} (h : Reads grammar form cursor trees after)
    (hends : form.everywhere Form.isEnded = true)
    (hform : form.lastWithin Kind.mayClose Phrase.mayClose = true) {kind : Kind}
    (hlast : lastKind? trees = some kind) : kind.mayClose = true := by
  have hinherits := hgrammar.everywhere.inherits
  have none_ne {kind : Kind} : ¬lastKind? [] = some kind := by
    rw [lastKind?_extras fun _ hmem => absurd hmem List.not_mem_nil]
    simp only [reduceCtorEq, not_false_eq_true]
  induction h generalizing kind with
  | nothing | ahead | «unless» | glued | manyNone => exact absurd hlast none_ne
  | token fits take skip =>
      have hkind := kind_of_lastKind?_cons
        (fun extra hextra => (isAside_of_skip _ skip extra hextra).extra) hlast
      simp only [Cursor.take, Prod.mk.injEq] at take
      rw [← hkind, ← take.1]
      exact hform
  | seq head tail ihHead ihTail =>
      simp only [Form.lastWithin, Bool.and_eq_true, Bool.or_eq_true] at hform
      rw [lastKind?_append, Option.or_eq_some_iff] at hlast
      -- The first form comes last only if the second one is empty.
      rcases hlast with hlast | ⟨hnone, hlast⟩
      · exact ihTail (hinherits.seq hends).2 hform.1 hlast
      · rcases hform.2 with hnonempty | hfirst
        · exact absurd hnone
            (tail.lastKind?_ne_none hnodes hgrammar (hinherits.seq hends).2 hnonempty)
        · exact ihHead (hinherits.seq hends).1 hfirst hlast
  | altFirst read ih =>
      simp only [Form.lastWithin, Bool.and_eq_true] at hform
      exact ih (hinherits.alt hends).1 hform.1 hlast
  | altSecond read ih =>
      simp only [Form.lastWithin, Bool.and_eq_true] at hform
      exact ih (hinherits.alt hends).2 hform.2 hlast
  | manyMore head tail ihHead ihTail =>
      rw [lastKind?_append, Option.or_eq_some_iff] at hlast
      rcases hlast with hlast | ⟨-, hlast⟩
      · exact ihTail hends hform hlast
      · exact ihHead (hinherits.many hends) hform hlast
  | node read encloses ih =>
      obtain ⟨children, extras, span, -, -, -, rfl, hextras⟩ := enclosed_eq encloses
      rw [← kind_of_lastKind?_cons hextras hlast]
      exact hform
  | label read ih =>
      rw [lastKind?, map_kind_relabel] at hlast
      exact ih (hinherits.label hends) hform hlast
  | call read ih => exact ih (hinherits.call hends) (hgrammar.last hform) hlast
  | growBase read ih =>
      simp only [Form.lastWithin, Bool.and_eq_true] at hform
      exact ih (hinherits.grow hends).1 hform.1 hlast
  | @growStep base step cursor middle after trees grown head tail ihHead ihTail =>
      have hparts := hform
      simp only [Form.lastWithin, Bool.and_eq_true] at hparts
      -- The node over the base is of the kind of what grows.
      cases trees with
      | nil => exact absurd hlast none_ne
      | cons first rest =>
          cases grown with
          | nil => exact ihHead hends hform hlast
          | cons grownOn extras => exact ihTail (hinherits.grow hends).2 hparts.2 hlast

/-! ### The last child -/

/-- What is enclosed does not end with an extra. -/
theorem not_isExtra_of_splitExtras {trees : List Tree} {last : Tree}
    (h : (Form.splitExtras trees).1.getLast? = some last) : last.isExtra = false := by
  induction trees with
  | nil => exact absurd h (by simp only [Form.splitExtras, List.getLast?_nil, reduceCtorEq,
      not_false_eq_true])
  | cons tree trees ih =>
      rw [Form.splitExtras] at h
      split at h
      · split at h
        · exact absurd h (by simp only [List.getLast?_nil, reduceCtorEq, not_false_eq_true])
        · next hregular =>
          rw [List.getLast?_singleton, Option.some.injEq] at h
          rw [← h, ← Bool.not_eq_true]
          exact hregular
      · next inner extras hne hsplit =>
        have hinner : inner ≠ [] := fun hnil => hne hnil
        rw [List.getLast?_cons_of_ne_nil hinner] at h
        exact ih (by rw [hsplit]; exact h)

/-- A node over what its form reads ends as it should. -/
theorem ended_of_enclose (hnodes : grammar.NodesRight) (hgrammar : grammar.Ends) {kind : Kind}
    {form : Form} {cursor after : Cursor} {trees children extras : List Tree} {span : Span}
    (hends : (Form.node kind form).everywhere Form.isEnded = true)
    (hread : Reads grammar form cursor trees after)
    (hsplit : Form.splitExtras trees = (children, extras)) (htrees : trees = children ++ extras)
    (hne : children ≠ []) : Tree.Ended ⟨kind, none, span, "", children⟩ := by
  intro _ hclose _
  simp only [Form.everywhere, Form.isEnded, Bool.and_eq_true, Bool.or_eq_true,
    Bool.not_eq_true'] at hends
  have hform := hends.1.2.resolve_left fun hnot =>
    absurd (hnot.symm.trans hclose) Bool.false_ne_true
  obtain ⟨before, last, rfl⟩ : ∃ before last, children = before ++ [last] :=
    ⟨_, _, (List.dropLast_concat_getLast hne).symm⟩
  have hregular : last.isExtra = false :=
    not_isExtra_of_splitExtras (by rw [hsplit, List.getLast?_concat])
  -- The extras behind the last child do not count for how the form ends.
  have hextras : ∀ extra ∈ extras, extra.isExtra = true := by
    have hall := isExtra_of_splitExtras trees
    rwa [hsplit] at hall
  refine ⟨before, last, rfl, hread.last hnodes hgrammar hends.2 hform ?_⟩
  rw [htrees, lastKind?_append, lastKind?_append, lastKind?_extras hextras,
    lastKind?_singleton hregular, Option.none_or, Option.some_or]

theorem IsAside.ended {tree : Tree} (h : IsAside tree) : tree.Every Tree.Ended := by
  refine .intro (Tree.ended_of_lexeme h.text) fun child hchild => ?_
  have hword := h.words child hchild
  refine .intro (Tree.ended_of_lexeme hword.text) fun inner hinner => ?_
  rw [hword.leaf] at hinner
  exact absurd hinner List.not_mem_nil

/-- The nodes that a grammar reads end as they should. -/
theorem Reads.ended (hnodes : grammar.NodesRight) (hgrammar : grammar.Ends) {form : Form}
    {cursor after : Cursor} {trees : List Tree} (h : Reads grammar form cursor trees after)
    (hends : form.everywhere Form.isEnded = true) : ∀ tree ∈ trees, tree.Every Tree.Ended := by
  refine h.forall_mem hgrammar.everywhere.inherits (fun tree haside => haside.ended) ?_ ?_
    (fun _ _ hfirst => Tree.Ended.relabel hfirst _) ?_ hends
  · intro kind lexeme gap cursor behind tree _ hfits htake
    simp only [Cursor.take, Tree.ofToken, Prod.mk.injEq] at htake
    have hrest : cursor.rest ≠ [] := by
      intro hnil
      rw [hnil, length_nil] at hfits
      exact hfits rfl
    rw [← htake.1]
    exact .intro (Tree.ended_of_lexeme (Cursor.lexeme_ne_empty hrest hfits))
      (by simp only [List.not_mem_nil, false_implies, implies_true])
  · intro kind form cursor after trees children extras span hform hread hended hsplit htrees hne
    exact .intro (ended_of_enclose hnodes hgrammar hform hread hsplit htrees hne)
      fun child hchild => hended child (htrees ▸ List.mem_append_left _ hchild)
  · intro base step cursor middle after first node rest extras _ _ _ hbase hnode
    refine .intro ?_ (forall_withBase (Tree.Ended.relabel (hbase first List.mem_cons_self) _)
      (fun child hchild => hbase child (List.mem_cons_of_mem _ hchild))
      fun _ hchild => hnode.child hchild)
    -- The base comes before what the node has.
    intro hlexeme hclose hunit
    obtain ⟨before, last, hchildren, hlast⟩ := hnode.here hlexeme hclose hunit
    refine ⟨{ first with label := Form.grownLabel node.kind } :: rest ++ before, last, ?_, hlast⟩
    rw [withBase, hchildren, List.append_assoc]

/-! ### The grammars -/

set_option maxRecDepth 100000 in
theorem ends_phrases : (phrases.all fun phrase => phrase.ends (csharp phrase)) = true := by
  decide +kernel

theorem ends_csharp : csharp.Ends :=
  forall_csharp Phrase.ends ends_phrases fun bare _ => by cases bare <;> rfl

set_option maxRecDepth 100000 in
theorem ends_tolerantBody : Phrase.functionBody.ends tolerantBody = true := by
  decide +kernel

theorem ends_tolerant : tolerant.Ends :=
  forall_tolerant Phrase.ends ends_csharp ends_tolerantBody

end Grammar

namespace Document

/-- The nodes of the document end as they should. -/
abbrev Ended (document : Document) : Prop :=
  document.tree.Every Tree.Ended

theorem ended_of_read? {grammar : Grammar} (hnodes : grammar.NodesRight) (hgrammar : grammar.Ends)
    {source : Text} {trees : List Tree} (h : read? grammar source = some trees) :
    ∀ tree ∈ trees, tree.Every Tree.Ended := by
  obtain ⟨extras, start, read, after, hskip, hreads, rfl⟩ := exists_reads_of_read? h
  intro tree hmem
  rcases List.mem_append.1 hmem with hmem | hmem
  · exact (Grammar.isAside_of_skip _ hskip tree hmem).ended
  · exact hreads.ended hnodes hgrammar rfl tree hmem

/-- The nodes of a parsed document end as they should. -/
theorem parse_ended (source : Text) : (parse source).Ended := by
  refine .intro (fun _ _ hunit => absurd rfl hunit) ?_
  rcases children_parse source with hread | hread | ⟨-, hbroken⟩
  · exact ended_of_read? Grammar.fit_csharp.nodesRight Grammar.ends_csharp hread
  · exact ended_of_read? Grammar.fit_tolerant.nodesRight Grammar.ends_tolerant hread
  · rw [hbroken, broken, List.forall_mem_singleton]
    exact .intro (Tree.ended_of_not_mayClose rfl)
      (by simp only [List.not_mem_nil, false_implies, implies_true])

namespace Has

open Place

variable {document : Document} {p : Place}

/-- A child of a kind that may close a node ends with a token of ink. -/
theorem exists_last_token (h : document.Has p) (hsound : document.Sound)
    (hwalled : document.Walled) (hended : document.Ended) {n : Nat} {child : Place}
    (hchild : p.child? n = some child) (hkind : child.kind.mayClose = true) :
    ∃ last, Below child last ∧ last.node.IsCode ∧ last.stop = child.stop := by
  -- Down the last children, each of which is smaller than its parent.
  induction hsize : sizeOf child.node using Nat.strongRecOn generalizing p n child with
  | ind size ih =>
      have hhas := h.child hchild
      by_cases hlexeme : child.node.lexeme = ""
      · have hunit := h.inner hwalled hchild
        obtain ⟨before, last, hchildren, hlast⟩ :=
          (Below.every hhas hended).here hlexeme hkind hunit
        have hstop : last.span.stop = child.stop :=
          (hhas.laidOut hsound).closes hlexeme hunit last (by
            rw [hchildren, List.getLast?_concat])
        have hlastChild : child.child? before.length
            = some ⟨last, (child.node, before.length) :: child.above⟩ :=
          child?_eq_some.2 ⟨by rw [hchildren, List.getElem?_concat_length], rfl⟩
        obtain ⟨token, hbelow, hcode, htoken⟩ :=
          ih _ (hsize ▸ sizeOf_lt_of_child? hlastChild) hhas hlastChild hlast rfl
        exact ⟨token, .trans (.step .refl hlastChild) hbelow, hcode, htoken.trans hstop⟩
      · have hopen : child.node.kind.mayOpen = true := by
          rw [Kind.mayClose, Bool.and_eq_true, Bool.and_eq_true] at hkind
          exact hkind.1.1
        exact ⟨child, .refl, ⟨hlexeme, hopen⟩, rfl⟩

end Has

end Document

end SharpLint

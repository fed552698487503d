import SharpLint.Proofs.Syntax.Place

/-!
# How Nodes Begin and End

A removal of lines reaches over blanks only, so it stops at the next token.
That takes tokens to stop at: a statement, a field and a constructor begin with
a token of ink and end with one, and so does a block between its braces. How a
node begins is part of its shape; how it ends is read off the grammar here.

## Main definitions

* `Tree.IsCode`: a token that begins and ends with ink.
* `Tree.Walled`: the node ends as its kind wants it.
* `Document.Walled`: every node of the document does.

## Theorems

* `Grammar.Reads.closed`: What a closed form reads ends with code.
* `Document.parse_walled`: Every parsed document is walled.
* `Document.Has.exists_opening`: A node begins with a token of ink.
-/

namespace SharpLint

namespace Kind

/-- The kinds of nodes that end with a token of ink, or with a block. -/
def isClosed : Kind → Bool
  | .expressionStatement | .fieldDeclaration | .constructorDeclaration => true
  | _ => false

/-- Whether nothing is asked of a node of the kind. -/
def isOpen (kind : Kind) : Bool :=
  !kind.isClosed && kind != .block && kind != .parameter

theorem isOpen_of_isExtra {kind : Kind} (h : kind.isExtra = true) : kind.isOpen = true := by
  cases kind <;> first | rfl | exact absurd h Bool.false_ne_true

end Kind

/-- The phrases that end with a token of ink, or with a block. -/
def Phrase.isClosed : Phrase → Bool
  | .functionBody | .block => true
  | _ => false

namespace Form

def isNothing : Form → Bool
  | nothing => true
  | _ => false

theorem eq_nothing {form : Form} (h : form.isNothing = true) : form = nothing := by
  cases form <;> first | rfl | exact absurd h Bool.false_ne_true

/-- What the form reads is not empty and ends with a token of ink or a block,
    as far as the form alone tells it. -/
def isClosed : Form → Bool
  | token kind _ _ => kind.mayOpen
  | node kind _ => kind == .block
  | seq first second => if second.isNothing then isClosed first else isClosed second
  | alt first second => isClosed first && isClosed second
  | call phrase => phrase.isClosed
  | _ => false

/-- What is asked of one part of a form. -/
def isWalled : Form → Bool
  | token kind _ _ => kind.isOpen
  | node kind form =>
    (!kind.isClosed || form.isClosed)
      && (kind != .block || match form.brackets? with
        | some ((first, _), last, _) => first.mayOpen && last.mayOpen
        | none => false)
  | grow _ step => step.topsWithin Kind.isOpen (fun _ => false)
  | _ => true

end Form

/-- The kinds of the nodes below the root. -/
def Kind.isInner (kind : Kind) : Bool :=
  kind != .compilationUnit

/-- What is asked of the form of a phrase. -/
def Phrase.walls (phrase : Phrase) (form : Form) : Bool :=
  (!phrase.isClosed || form.isClosed) && form.everywhere Form.isWalled
    && form.deepWithin Kind.isInner (fun _ => true)

namespace Tree

/-- A token that begins and ends with ink. -/
structure IsCode (tree : Tree) : Prop where
  text : tree.lexeme ≠ ""
  kind : tree.kind.mayOpen = true

/-- The tree is a token of ink or a block. -/
def IsCloser (tree : Tree) : Prop :=
  tree.IsCode ∨ tree.kind = .block

/-- The node ends as its kind wants it. -/
structure Walled (tree : Tree) : Prop where
  /-- A block begins and ends with a brace. -/
  braces : tree.kind = .block → ∃ opening inner closing,
    tree.children = opening :: inner ++ [closing] ∧ opening.IsCode ∧ closing.IsCode
  /-- A statement or member ends with a token of ink or a block. -/
  closes : tree.kind.isClosed = true → ∃ before last,
    tree.children = before ++ [last] ∧ last.IsCloser
  /-- A parameter is no token. -/
  parameter : tree.kind = .parameter → tree.lexeme = ""

theorem walled_of_isOpen {tree : Tree} (h : tree.kind.isOpen = true) : tree.Walled := by
  simp only [Kind.isOpen, Bool.and_eq_true, Bool.not_eq_true', bne_iff_ne] at h
  exact ⟨fun hkind => absurd hkind h.1.2,
    fun hkind => absurd (h.1.1.symm.trans hkind) Bool.false_ne_true,
    fun hkind => absurd hkind h.2⟩

/-- How a node ends does not depend on its label. -/
theorem Walled.relabel {tree : Tree} (h : Every Walled tree) (label : Option Label) :
    Every Walled { tree with label } :=
  .intro ⟨h.here.braces, h.here.closes, h.here.parameter⟩ fun _ hchild => h.child hchild

theorem IsCloser.not_isExtra {tree : Tree} (h : tree.IsCloser) : tree.isExtra = false := by
  rcases h with h | h
  · have hkind := h.kind
    rw [Kind.mayOpen, Bool.and_eq_true, Bool.and_eq_true, Bool.not_eq_true'] at hkind
    exact hkind.1.1
  · rw [isExtra, h]
    rfl

end Tree

namespace Grammar

/-- Every phrase of the grammar ends as it should. -/
def Walls (grammar : Grammar) : Prop :=
  ∀ phrase : Phrase, phrase.walls (grammar phrase) = true

variable {grammar : Grammar}

theorem Walls.isClosed (h : grammar.Walls) {phrase : Phrase} (hphrase : phrase.isClosed = true) :
    (grammar phrase).isClosed = true := by
  have hwalls := h phrase
  simp only [Phrase.walls, Bool.and_eq_true, hphrase, Bool.not_true, Bool.false_or] at hwalls
  exact hwalls.1.1

theorem Walls.everywhere (h : grammar.Walls) : grammar.Everywhere Form.isWalled := by
  intro phrase
  have hwalls := h phrase
  simp only [Phrase.walls, Bool.and_eq_true] at hwalls
  exact hwalls.1.2

theorem Walls.deep (h : grammar.Walls) (phrase : Phrase) :
    (grammar phrase).deepWithin Kind.isInner (fun _ => true) = true := by
  have hwalls := h phrase
  simp only [Phrase.walls, Bool.and_eq_true] at hwalls
  exact hwalls.2

/-- A token that is read is of ink, if its kind is. -/
theorem IsTokenOf.isCode {kind : Kind} {lexeme : Lexeme} {tree : Tree}
    (h : IsTokenOf kind lexeme tree) (hkind : kind.mayOpen = true) : tree.IsCode := by
  obtain ⟨hkind', text, n, hlength, hne, htext⟩ := h
  refine ⟨fun hempty => ?_, hkind' ▸ hkind⟩
  rw [hempty, String.toList_empty] at htext
  rcases List.take_eq_nil_iff.1 htext.symm with h | h
  · exact hne h
  · rw [h, length_nil] at hlength
    exact hne hlength.symm

/-- What a closed form reads ends with a token of ink or a block, extras
    aside. -/
theorem Reads.closed (hgrammar : grammar.Walls) {form : Form} {cursor after : Cursor}
    {trees : List Tree} (h : Reads grammar form cursor trees after)
    (hform : form.isClosed = true) :
    ∃ before last extras, trees = before ++ last :: extras ∧ last.IsCloser
      ∧ ∀ extra ∈ extras, extra.isExtra = true := by
  induction h with
  | token fits take skip =>
      have hread : Reads grammar _ _ _ _ := .token fits take skip
      obtain ⟨tree, extras, heq, htoken, hextras⟩ := hread.cons_of_token
      exact ⟨[], tree, extras, heq, .inl (htoken.isCode hform),
        fun extra hextra => (hextras extra hextra).extra⟩
  | @seq first second cursor middle after trees more head tail ihHead ihTail =>
      -- The end is that of the second form, unless that reads nothing.
      rw [Form.isClosed] at hform
      split at hform
      · next hnothing =>
        rw [Form.eq_nothing hnothing] at tail
        cases tail
        rw [List.append_nil]
        exact ihHead hform
      · obtain ⟨before, last, extras, rfl, hlast, hextras⟩ := ihTail hform
        exact ⟨trees ++ before, last, extras, (List.append_assoc _ _ _).symm, hlast, hextras⟩
  | altFirst read ih =>
      rw [Form.isClosed, Bool.and_eq_true] at hform
      exact ih hform.1
  | altSecond read ih =>
      rw [Form.isClosed, Bool.and_eq_true] at hform
      exact ih hform.2
  | node read encloses ih =>
      obtain ⟨children, extras, span, -, -, -, rfl, hextras⟩ := enclosed_eq encloses
      exact ⟨[], _, extras, rfl, .inr (beq_iff_eq.1 hform), hextras⟩
  | call read ih => exact ih (hgrammar.isClosed hform)
  | nothing | ahead | «unless» | glued | manyNone | manyMore | label | growBase | growStep =>
      exact absurd hform Bool.false_ne_true

/-- A node over what its form reads ends as its kind wants it. -/
theorem walled_of_enclose (hgrammar : grammar.Walls) {kind : Kind} {form : Form}
    {cursor after : Cursor} {trees children extras : List Tree} {span : Span}
    (hform : (Form.node kind form).isWalled = true) (hread : Reads grammar form cursor trees after)
    (hsplit : Form.splitExtras trees = (children, extras)) :
    Tree.Walled ⟨kind, none, span, "", children⟩ := by
  rw [Form.isWalled, Bool.and_eq_true, Bool.or_eq_true, Bool.not_eq_true', Bool.or_eq_true,
    bne_iff_ne] at hform
  refine ⟨?_, ?_, fun _ => rfl⟩
  · -- A block or a list in braces has code for its first and last child.
    intro hkind
    have hbraces := hform.2.resolve_left fun hne => hne hkind
    split at hbraces
    · next first start last stop hbrackets =>
      rw [Bool.and_eq_true] at hbraces
      have hlast := hbraces.2
      rw [Kind.mayOpen, Bool.and_eq_true, Bool.and_eq_true, Bool.not_eq_true'] at hlast
      obtain ⟨opening, inner, closing, hchildren, hopening, hclosing⟩ :=
        hread.bracketed hbrackets hlast.1.1
      rw [hsplit] at hchildren
      exact ⟨opening, inner, closing, hchildren, hopening.isCode hbraces.1,
        hclosing.isCode hbraces.2⟩
    · exact absurd hbraces Bool.false_ne_true
  · intro hkind
    -- The other kinds that are walled end with a child that is closed.
    have hclosed := hform.1.resolve_left fun hne => absurd (hne.symm.trans hkind) Bool.false_ne_true
    obtain ⟨before, last, extras', rfl, hlast, hextras⟩ := hread.closed hgrammar hclosed
    rw [splitExtras_eq hlast.not_isExtra hextras, Prod.mk.injEq] at hsplit
    exact ⟨before, last, hsplit.1.symm, hlast⟩

theorem IsAside.walled {tree : Tree} (h : IsAside tree) : tree.Every Tree.Walled :=
  have hopen : tree.Every fun node => node.kind.isOpen = true :=
    h.kinds (fun _ => Kind.isOpen_of_isExtra) rfl
  hopen.imp fun _ => Tree.walled_of_isOpen

/-- What a grammar that walls reads is walled. -/
theorem Reads.walled (hgrammar : grammar.Walls) (hheads : grammar.HeadsRight) {form : Form}
    {cursor after : Cursor} {trees : List Tree} (h : Reads grammar form cursor trees after)
    (hform : form.everywhere Form.isWalled = true) :
    ∀ tree ∈ trees, tree.Every Tree.Walled := by
  refine h.forall_mem hgrammar.everywhere.inherits (fun tree haside => haside.walled) ?_ ?_
    (fun _ _ hfirst => Tree.Walled.relabel hfirst _) ?_ hform
  · intro kind lexeme gap cursor behind tree hform _ htake
    simp only [Cursor.take, Tree.ofToken, Prod.mk.injEq] at htake
    rw [← htake.1]
    exact .intro (Tree.walled_of_isOpen hform)
      (by simp only [List.not_mem_nil, false_implies, implies_true])
  · intro kind form cursor after trees children extras span hform hread hwalled hsplit htrees _
    simp only [Form.everywhere, Bool.and_eq_true] at hform
    exact .intro (walled_of_enclose hgrammar hform.1 hread hsplit)
      fun child hchild => hwalled child (htrees ▸ List.mem_append_left _ hchild)
  · intro base step cursor middle after first node rest extras hform _ hstep hbase hnode
    simp only [Form.everywhere, Bool.and_eq_true] at hform
    -- The base becomes the first child of a node whose end is not asked for.
    have hopen : node.kind.isOpen = true := hstep.tops hheads (fun _ => Kind.isOpen_of_isExtra)
      (fun _ hfalse => absurd hfalse Bool.false_ne_true) hform.1.1 node List.mem_cons_self
    exact .intro (Tree.walled_of_isOpen hopen)
      (forall_withBase (Tree.Walled.relabel (hbase first List.mem_cons_self) _)
        (fun child hchild => hbase child (List.mem_cons_of_mem _ hchild))
        fun _ hchild => hnode.child hchild)

/-! ### The grammars -/

set_option maxRecDepth 100000 in
theorem walls_phrases : (phrases.all fun phrase => phrase.walls (csharp phrase)) = true := by
  decide +kernel

theorem walls_csharp : csharp.Walls :=
  forall_csharp Phrase.walls walls_phrases fun bare _ => by cases bare <;> rfl

set_option maxRecDepth 100000 in
theorem walls_tolerantBody : Phrase.functionBody.walls tolerantBody = true := by
  decide +kernel

theorem walls_tolerant : tolerant.Walls :=
  forall_tolerant Phrase.walls walls_csharp walls_tolerantBody

end Grammar

namespace Document

/-- The nodes of the document end as their kinds want them, and the root is the
    only one of its kind. -/
structure Walled (document : Document) : Prop where
  every : document.tree.Every Tree.Walled
  inner : ∀ child ∈ document.tree.children, Grammar.Kinds Kind.isInner child

theorem walled_of_read? {grammar : Grammar} (hgrammar : grammar.Walls) (hheads : grammar.HeadsRight)
    {source : Text} {trees : List Tree} (h : read? grammar source = some trees) :
    ∀ tree ∈ trees, tree.Every Tree.Walled ∧ Grammar.Kinds Kind.isInner tree := by
  have hextra (kind : Kind) (hkind : kind.isExtra = true) : kind.isInner = true := by
    cases kind <;> first | rfl | exact absurd hkind Bool.false_ne_true
  obtain ⟨extras, start, read, after, hskip, hreads, rfl⟩ := exists_reads_of_read? h
  intro tree hmem
  rcases List.mem_append.1 hmem with hmem | hmem
  · have haside := Grammar.isAside_of_skip _ hskip tree hmem
    exact ⟨haside.walled, haside.kinds hextra rfl⟩
  · exact ⟨hreads.walled hgrammar hheads rfl tree hmem,
      hreads.deep hextra rfl (fun phrase _ => hgrammar.deep phrase) rfl tree hmem⟩

/-- Every parsed document is walled. -/
theorem parse_walled (source : Text) : (parse source).Walled := by
  have htrees : ∀ tree ∈ (parse source).tree.children,
      tree.Every Tree.Walled ∧ Grammar.Kinds Kind.isInner tree := by
    rcases children_parse source with hread | hread | ⟨-, hbroken⟩
    · exact walled_of_read? Grammar.walls_csharp Grammar.fit_csharp.headsRight hread
    · exact walled_of_read? Grammar.walls_tolerant Grammar.fit_tolerant.headsRight hread
    · rw [hbroken, broken, List.forall_mem_singleton]
      constructor
      · exact .intro (Tree.walled_of_isOpen rfl)
          (by simp only [List.not_mem_nil, false_implies, implies_true])
      · exact .intro rfl (by simp only [List.not_mem_nil, false_implies, implies_true])
  exact ⟨.intro (Tree.walled_of_isOpen rfl) fun tree hmem => (htrees tree hmem).1,
    fun tree hmem => (htrees tree hmem).2⟩

/-! ### Ends of nodes -/

namespace Has

open Place

variable {document : Document} {p : Place}

theorem walled (h : document.Has p) (hwalled : document.Walled) : p.node.Walled :=
  (Below.every h hwalled.every).here

/-- A child of a node is not the root. -/
theorem inner (h : document.Has p) (hwalled : document.Walled) {n : Nat} {child : Place}
    (hchild : p.child? n = some child) : child.kind ≠ .compilationUnit := by
  have hkinds : Grammar.Kinds Kind.isInner child.node := by
    rcases Below.head (.step h hchild : Below document.root child) with heq | ⟨m, top, htop, hbelow⟩
    · rw [heq] at hchild
      exact absurd hchild (by
        rw [child?_eq_some]
        exact fun hroot => absurd hroot.2.symm (List.cons_ne_nil _ _))
    · exact hbelow.every (hwalled.inner top.node (mem_of_child? htop))
  exact bne_iff_ne.1 hkinds.here

/-- A child that is code begins with a token of ink. -/
theorem exists_opening (h : document.Has p) (hsound : document.Sound) (hwalled : document.Walled)
    {n : Nat} {child : Place} (hchild : p.child? n = some child)
    (hkind : child.kind.mayOpen = true) :
    ∃ first, Below child first ∧ first.node.IsCode ∧ first.start = child.start := by
  -- Down the first children, each of which is smaller than its parent.
  induction hsize : sizeOf child.node using Nat.strongRecOn generalizing p n child with
  | ind size ih =>
      by_cases hlexeme : child.node.lexeme = ""
      · have herror : child.kind ≠ .error := by
          rw [Kind.mayOpen, Bool.and_eq_true, bne_iff_ne] at hkind
          exact hkind.2
        have hhas := h.child hchild
        obtain ⟨tree, rest, hchildren, hopens⟩ :=
          (hhas.shaped hsound).opens hlexeme herror (h.inner hwalled hchild)
        have hfirst : child.child? 0 = some ⟨tree, (child.node, 0) :: child.above⟩ :=
          child?_eq_some.2 ⟨by rw [hchildren]; rfl, rfl⟩
        obtain ⟨first, hbelow, hcode, hstart⟩ :=
          ih _ (hsize ▸ sizeOf_lt_of_child? hfirst) hhas hfirst hopens rfl
        refine ⟨first, .trans (.step .refl hfirst) hbelow, hcode, hstart.trans ?_⟩
        exact (hhas.laidOut hsound).opens hlexeme tree (by rw [hchildren]; rfl)
      · exact ⟨child, .refl, ⟨hlexeme, hkind⟩, rfl⟩

/-- What holds other nodes has no text of its own. -/
theorem lexeme_of_isComposite (h : document.Has p) (hsound : document.Sound)
    (hkind : p.kind.isComposite = true) : p.node.lexeme = "" := by
  refine Classical.byContradiction fun hne => ?_
  exact absurd (((h.shaped hsound).composite hne).symm.trans hkind) Bool.false_ne_true

/-- The last child of a node that is no token stops where the node does. -/
theorem last_child (h : document.Has p) (hsound : document.Sound)
    (hkind : p.kind.isComposite = true) {before : List Tree} {last : Tree}
    (hchildren : p.node.children = before ++ [last]) :
    p.child? before.length = some ⟨last, (p.node, before.length) :: p.above⟩
      ∧ last.span.stop = p.stop := by
  have hunit : p.node.kind ≠ .compilationUnit := by
    intro hunit
    rw [Place.kind, hunit] at hkind
    exact absurd hkind (by decide)
  refine ⟨child?_eq_some.2 ⟨?_, rfl⟩, ?_⟩
  · rw [hchildren, List.getElem?_append_right (Nat.le_refl _), Nat.sub_self]
    rfl
  · refine (h.laidOut hsound).closes (h.lexeme_of_isComposite hsound hkind) hunit last ?_
    rw [hchildren, List.getLast?_append, List.getLast?_singleton, Option.some_or]

/-- A block stands between two braces. -/
theorem braces (h : document.Has p) (hsound : document.Sound) (hwalled : document.Walled)
    (hkind : p.kind = .block) :
    ∃ opening closing n, p.child? 0 = some opening ∧ p.child? (n + 1) = some closing
      ∧ opening.node.IsCode ∧ closing.node.IsCode ∧ opening.start = p.start
      ∧ closing.stop = p.stop := by
  obtain ⟨opening, inner, closing, hchildren, hopening, hclosing⟩ :=
    (h.walled hwalled).braces hkind
  have hcomposite : p.kind.isComposite = true := by rw [hkind]; rfl
  obtain ⟨hlast, hstop⟩ := h.last_child hsound hcomposite hchildren
  refine ⟨⟨opening, (p.node, 0) :: p.above⟩, _, inner.length,
    child?_eq_some.2 ⟨by rw [hchildren]; rfl, rfl⟩, hlast, hopening, hclosing, ?_, hstop⟩
  exact (h.laidOut hsound).opens (h.lexeme_of_isComposite hsound hcomposite) opening
    (by rw [hchildren]; rfl)

/-- A statement or member ends with a token of ink. -/
theorem exists_closing (h : document.Has p) (hsound : document.Sound) (hwalled : document.Walled)
    (hkind : p.kind.isClosed = true) :
    ∃ last, Below p last ∧ last.node.IsCode ∧ last.stop = p.stop := by
  have hcomposite : p.kind.isComposite = true := by
    cases heq : p.kind <;> rw [heq] at hkind <;>
      first | rfl | exact absurd hkind Bool.false_ne_true
  obtain ⟨before, last, hchildren, hlast⟩ := (h.walled hwalled).closes hkind
  obtain ⟨hchild, hstop⟩ := h.last_child hsound hcomposite hchildren
  rcases hlast with hcode | hblock
  · exact ⟨_, .step .refl hchild, hcode, hstop⟩
  · obtain ⟨-, closing, n, -, hclosing, -, hcode, -, hclosingStop⟩ :=
      (h.child hchild).braces hsound hwalled hblock
    exact ⟨closing, .step (.step .refl hchild) hclosing, hcode, hclosingStop.trans hstop⟩

end Has

end Document

end SharpLint

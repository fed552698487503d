import SharpLint.Proofs.Syntax.Checks

/-!
# Shapes of Nodes

What a node may hold. The shape of a node is told by its kind, its text and
its children with their labels alone, so it is kept when the node gets a label
or a place in a larger tree. All of it is read off the forms: `Form.isFit` is
asked of every part of every form of a grammar.

## Main definitions

* `Kind.mayHold`: which telling kinds a node may have among its children.
* `Kind.isSealed`: the nodes in which no member is declared.
* `Kind.excluded`: the orders in which no children of a node come.
* `Kind.bracketsFit`: the texts around the children of a list.
* `Tree.Shaped`: a node is as its kind wants it.
* `Grammar.Fit`: the grammar passes all checks.

## Theorems

* `Grammar.Reads.shaped`: What a grammar that fits reads is shaped.
-/

namespace SharpLint

namespace Kind

/-- The nodes that may have a parameter list. -/
def mayHaveParameters : Kind → Bool
  | .classDeclaration | .structDeclaration | .recordDeclaration | .interfaceDeclaration
  | .delegateDeclaration | .constructorDeclaration | .destructorDeclaration | .methodDeclaration
  | .operatorDeclaration | .conversionOperatorDeclaration | .localFunctionStatement
  | .lambdaExpression | .anonymousMethodExpression => true
  | _ => false

/-- Whether a node may have a child of the given kind. -/
def mayHold (parent : Kind) : Kind → Bool
  | .parameter => parent == .parameterList || parent == .bracketedParameterList
  | .parameterList => parent.mayHaveParameters
  | .bracketedParameterList => parent == .indexerDeclaration
  | .implicitParameter => parent == .lambdaExpression
  | .variableDeclarator => parent == .variableDeclaration
  | .token "" => parent == .error
  | _ => true

/-- The nodes below which no member is declared. -/
def isSealed : Kind → Bool
  | .fieldDeclaration | .constructorDeclaration | .interpolatedStringExpression => true
  | _ => false

/-- The kinds of nodes that fixes and scopes look into, besides those of types:
    no token is of such a kind. -/
def isComposite : Kind → Bool
  | .block | .expressionStatement | .arrowExpressionClause | .parameterList
  | .variableDeclaration | .lambdaExpression => true
  | kind => kind.isMember

/-- The pairs of kinds of which the second never stands behind the first among
    the children of a node. -/
def excluded : Kind → List (Kind × Kind)
  | .constructorDeclaration =>
    [(.arrowExpressionClause, .parameterList), (.parameterList, .parameterList),
      (.arrowExpressionClause, .constructorInitializer)]
  | .fieldDeclaration => [(.variableDeclaration, .variableDeclaration)]
  | _ => []

/-- The lists whose children stand between brackets. -/
def isBracketed : Kind → Bool
  | .parameterList | .declarationList | .interpolatedStringExpression => true
  | _ => false

/-- Whether the two texts may stand around the children of a list. -/
def bracketsFit (start stop : Text) : Kind → Bool
  | .parameterList => start == ['('] && stop == [')']
  | .declarationList => start == ['\x7b'] && stop == ['\x7d']
  | .interpolatedStringExpression =>
    !start.isEmpty && Lexeme.isBounded start && !stop.isEmpty && Lexeme.isBounded stop
  | _ => false

/-- The kinds of what is labelled as the parameters of a node. -/
def isParameters : Kind → Bool
  | .parameterList | .implicitParameter => true
  | _ => false

/-- Whether nothing is asked of a node of the kind but that of all nodes. -/
def isPlain (kind : Kind) : Bool :=
  !kind.isSealed && !kind.isBracketed && kind.excluded.isEmpty

theorem mayHold_of_not_isTelling (parent : Kind) {kind : Kind} (h : kind.isTelling = false) :
    parent.mayHold kind = true := by
  unfold mayHold
  split <;> first | rfl | exact absurd h (by decide)

theorem isPlain_of_isExtra {kind : Kind} (h : kind.isExtra = true) : kind.isPlain = true := by
  cases kind <;> first | rfl | exact absurd h Bool.false_ne_true

theorem isComposite_of_isMember {kind : Kind} (h : kind.isMember = true) :
    kind.isComposite = true := by
  cases kind <;> first | rfl | exact absurd h Bool.false_ne_true

theorem isComposite_of_isExtra {kind : Kind} (h : kind.isExtra = true) :
    kind.isComposite = false := by
  cases kind <;> first | rfl | exact absurd h Bool.false_ne_true

theorem isMember_of_isExtra {kind : Kind} (h : kind.isExtra = true) : kind.isMember = false := by
  cases kind <;> first | rfl | exact absurd h Bool.false_ne_true

end Kind

namespace Tree

/-- The node is as its kind wants it. -/
structure Shaped (tree : Tree) : Prop where
  /-- Children stand only below parents that may hold them. -/
  holds : ∀ child ∈ tree.children, tree.kind.mayHold child.kind = true
  /-- Tokens are leaves, apart from a directive that names warnings. -/
  leaf : tree.lexeme ≠ "" → tree.kind = .preprocPragma ∨ tree.children = []
  /-- Names, comments and directives are tokens. -/
  named : tree.kind = .identifier ∨ tree.kind.isExtra = true → tree.lexeme ≠ ""
  /-- What holds other nodes is no token. -/
  composite : tree.lexeme ≠ "" → tree.kind.isComposite = false
  /-- Tokens begin and end with ink. -/
  solid : tree.lexeme ≠ "" → tree.kind.isExtra = false → tree.kind.mayBeBlank = false →
    Text.Solid tree.lexeme.toList
  /-- Lists begin and end with brackets. -/
  bracketed : tree.kind.isBracketed = true → ∃ opening inner closing,
    tree.children = opening :: inner ++ [closing]
      ∧ tree.kind.bracketsFit opening.lexeme.toList closing.lexeme.toList = true
  /-- Nodes begin with a child, and that with ink; a node for what fits no form
      need not. -/
  opens : tree.lexeme = "" → tree.kind ≠ .error → tree.kind ≠ .compilationUnit →
    ∃ first rest, tree.children = first :: rest ∧ first.kind.mayOpen = true
  /-- Nothing below declares a member, where the node is sealed. -/
  sealed : tree.kind.isSealed = true → ∀ child ∈ tree.children,
    Every (fun node => node.kind.isMember = false) child
  /-- Children do not come in an excluded order. -/
  ordered : ∀ pair ∈ tree.kind.excluded, Grammar.Apart pair.1 pair.2 tree.children
  /-- What is labelled as the parameters is a list, or a name alone. -/
  parameters : ∀ child ∈ tree.children, child.label = some .parameters →
    child.kind.isParameters = true
  /-- What is labelled as the name is no comment or directive. -/
  names : ∀ child ∈ tree.children, child.label = some .name → child.kind.mayOpen = true

/-- What is labelled as the parameters or as the name may be so. -/
structure LabelFits (tree : Tree) : Prop where
  parameters : tree.label = some .parameters → tree.kind.isParameters = true
  name : tree.label = some .name → tree.kind.mayOpen = true

theorem labelFits_of_none {tree : Tree} (h : tree.label = none) : tree.LabelFits := by
  constructor <;>
    (rw [h]; exact fun hfalse => absurd hfalse (by simp only [reduceCtorEq, not_false_eq_true]))

/-- Every node of the tree is shaped, and its label fits. -/
structure Fits (tree : Tree) : Prop where
  every : Every Shaped tree
  label : LabelFits tree

/-- The shape of a node does not depend on its label. -/
theorem Shaped.relabel {tree : Tree} (h : Every Shaped tree) (label : Option Label) :
    Every Shaped { tree with label } :=
  .intro ⟨h.here.holds, h.here.leaf, h.here.named, h.here.composite, h.here.solid, h.here.bracketed, h.here.opens,
    h.here.sealed, h.here.ordered, h.here.parameters, h.here.names⟩ fun _ hchild => h.child hchild

/-- A node of a plain kind is shaped like all nodes. -/
theorem shaped_of_isPlain {tree : Tree} (hplain : tree.kind.isPlain = true)
    (holds : ∀ child ∈ tree.children, tree.kind.mayHold child.kind = true)
    (leaf : tree.lexeme ≠ "" → tree.kind = .preprocPragma ∨ tree.children = [])
    (named : tree.kind = .identifier ∨ tree.kind.isExtra = true → tree.lexeme ≠ "")
    (composite : tree.lexeme ≠ "" → tree.kind.isComposite = false)
    (solid : tree.lexeme ≠ "" → tree.kind.isExtra = false → tree.kind.mayBeBlank = false →
      Text.Solid tree.lexeme.toList)
    (opens : tree.lexeme = "" → tree.kind ≠ .error → tree.kind ≠ .compilationUnit →
      ∃ first rest, tree.children = first :: rest ∧ first.kind.mayOpen = true)
    (labels : ∀ child ∈ tree.children, LabelFits child) : Shaped tree := by
  simp only [Kind.isPlain, Bool.and_eq_true, Bool.not_eq_true', List.isEmpty_iff] at hplain
  refine ⟨holds, leaf, named, composite, solid, ?_, opens, ?_, ?_,
    fun child hchild => (labels child hchild).parameters,
    fun child hchild => (labels child hchild).name⟩
  · rw [hplain.1.2]
    exact fun hfalse => absurd hfalse Bool.false_ne_true
  · rw [hplain.1.1]
    exact fun hfalse => absurd hfalse Bool.false_ne_true
  · rw [hplain.2]
    exact fun pair hpair => absurd hpair List.not_mem_nil

end Tree

namespace Form

/-- What is asked of one part of a form. -/
def isFit : Form → Bool
  | token kind lexeme _ => kind.isPlain && !kind.isComposite && (kind.mayBeBlank || lexeme.isSolid)
  | node kind form =>
    kind != .identifier && !kind.isExtra
      && (kind == .error || form.firstWithin Kind.mayOpen Phrase.isProper)
      && form.topsWithin kind.mayHold (Phrase.headsWithin kind.mayHold)
      && (!kind.isSealed || form.deepWithin (!·.isMember) Phrase.isInner)
      && kind.excluded.all (fun pair =>
        pair.1.isTelling && pair.2.isTelling && form.noAfter pair.1 pair.2)
      && (!kind.isBracketed || match form.brackets? with
        | some ((_, .mark start _), last, .mark stop _) =>
          !last.isExtra && kind.bracketsFit start stop
        | _ => false)
  | label part form =>
    (part != .parameters || form.firstKind?.any Kind.isParameters)
      && (part != .name || form.firstWithin Kind.mayOpen Phrase.isProper)
  | grow base step =>
    step.startsNode && step.topsWithin Kind.isPlain (fun _ => false)
      && (grow base step).topsWithin (!·.isTelling) (Phrase.headsWithin (!·.isTelling))
      && (grow base step).firstWithin Kind.mayOpen Phrase.isProper
  | _ => true

end Form

/-- What is asked of the form of a phrase. -/
def Phrase.admits (phrase : Phrase) (form : Form) : Bool :=
  form.topsWithin phrase.mayHead (Phrase.headsWithin phrase.mayHead)
    && phrase.node?.all (fun kind => form.node? == some kind)
    && (!phrase.isInner || form.deepWithin (!·.isMember) Phrase.isInner)
    && (!phrase.isProper || form.firstWithin Kind.mayOpen Phrase.isProper)
    && form.everywhere Form.isFit

namespace Grammar

/-- Every phrase of the grammar admits its form. -/
def Fit (grammar : Grammar) : Prop :=
  ∀ phrase : Phrase, phrase.admits (grammar phrase) = true

variable {grammar : Grammar}

namespace Fit

theorem headsRight (h : grammar.Fit) : grammar.HeadsRight := by
  intro phrase
  have hadmits := h phrase
  simp only [Phrase.admits, Bool.and_eq_true] at hadmits
  exact hadmits.1.1.1.1

theorem nodesRight (h : grammar.Fit) : grammar.NodesRight := by
  intro phrase kind hkind
  have hadmits := h phrase
  simp only [Phrase.admits, Bool.and_eq_true] at hadmits
  have hnode := hadmits.1.1.1.2
  rw [hkind, Option.all_some, beq_iff_eq] at hnode
  exact hnode

theorem inner (h : grammar.Fit) (phrase : Phrase) (hinner : phrase.isInner = true) :
    (grammar phrase).deepWithin (!·.isMember) Phrase.isInner = true := by
  have hadmits := h phrase
  simp only [Phrase.admits, Bool.and_eq_true, hinner, Bool.not_true, Bool.false_or] at hadmits
  exact hadmits.1.1.2

theorem proper (h : grammar.Fit) (phrase : Phrase) (hproper : phrase.isProper = true) :
    (grammar phrase).firstWithin Kind.mayOpen Phrase.isProper = true := by
  have hadmits := h phrase
  simp only [Phrase.admits, Bool.and_eq_true, hproper, Bool.not_true, Bool.false_or] at hadmits
  exact hadmits.1.2

theorem everywhere (h : grammar.Fit) : grammar.Everywhere Form.isFit := by
  intro phrase
  have hadmits := h phrase
  simp only [Phrase.admits, Bool.and_eq_true] at hadmits
  exact hadmits.2

end Fit

/-- A word in a directive is shaped. -/
theorem IsWord.fits {tree : Tree} (h : IsWord tree) : tree.Fits := by
  have hnone : ∀ child ∈ tree.children, False := by
    rw [h.leaf]
    simp only [List.not_mem_nil, false_implies, implies_true]
  have hplain : tree.kind.isPlain = true := by
    rcases h.kind with hkind | ⟨hkind, -⟩ <;> rw [hkind] <;> rfl
  refine ⟨.intro (Tree.shaped_of_isPlain hplain (fun child hchild => (hnone child hchild).elim)
    (fun _ => .inr h.leaf) (fun _ => h.text) ?_ ?_ (fun hempty => absurd hempty h.text)
    fun child hchild => (hnone child hchild).elim) fun child hchild => (hnone child hchild).elim, ?_⟩
  · intro _
    rcases h.kind with hkind | ⟨hkind, -⟩ <;> rw [hkind] <;> rfl
  · intro _ hextra _
    rcases h.kind with hkind | ⟨-, hsolid⟩
    · rw [hkind] at hextra
      exact absurd hextra (by decide)
    · exact hsolid
  · exact Tree.labelFits_of_none h.label

/-- A comment or directive is shaped. -/
theorem IsAside.fits {tree : Tree} (h : IsAside tree) : tree.Fits := by
  refine ⟨.intro (Tree.shaped_of_isPlain (Kind.isPlain_of_isExtra h.extra) ?_ (fun _ => h.leaf)
    (fun _ => h.text) (fun _ => Kind.isComposite_of_isExtra h.extra) ?_
    (fun hempty => absurd hempty h.text) fun child hchild => (h.words child hchild).fits.label) fun child hchild =>
      (h.words child hchild).fits.every, ?_⟩
  · intro child hchild
    rcases (h.words child hchild).kind with hkind | ⟨hkind, -⟩ <;> rw [hkind] <;> rfl
  · intro _ hextra
    rw [← Tree.isExtra, h.extra] at hextra
    exact absurd hextra (by decide)
  · exact Tree.labelFits_of_none h.label

/-- A token is shaped. -/
theorem fits_of_take {kind : Kind} {lexeme : Lexeme} {gap : Gap} {cursor behind : Cursor}
    {tree : Tree} (hform : (Form.token kind lexeme gap).isFit = true)
    (hfits : lexeme.length cursor.rest ≠ 0)
    (htake : cursor.take kind (lexeme.length cursor.rest) = (tree, behind)) : tree.Fits := by
  have hrest : cursor.rest ≠ [] := fun hnil => hfits (by rw [hnil, length_nil])
  have hne := Cursor.lexeme_ne_empty hrest hfits
  simp only [Form.isFit, Bool.and_eq_true, Bool.or_eq_true, Bool.not_eq_true'] at hform
  simp only [Cursor.take, Tree.ofToken, Prod.mk.injEq] at htake
  rw [← htake.1]
  refine ⟨.intro (Tree.shaped_of_isPlain hform.1.1 ?_ (fun _ => .inr rfl) (fun _ => hne)
    (fun _ => hform.1.2) ?_ (fun hempty => absurd hempty hne) ?_) ?_, ?_⟩
  · simp only [List.not_mem_nil, false_implies, implies_true]
  · intro _ _ hblank
    have hsolid := hform.2.resolve_left fun h => absurd (hblank.symm.trans h) (by decide)
    simp only [String.toList_ofList]
    exact Lexeme.solid_of_isSolid hsolid rfl hfits hrest
  · simp only [List.not_mem_nil, false_implies, implies_true]
  · simp only [List.not_mem_nil, false_implies, implies_true]
  · exact Tree.labelFits_of_none rfl

/-- A token read with a mark is the mark. -/
theorem IsTokenOf.lexeme_eq {kind : Kind} {text unlike : Text} {tree : Tree}
    (h : IsTokenOf kind (.mark text unlike) tree) : tree.lexeme.toList = text := by
  obtain ⟨-, source, n, hlength, hne, htext⟩ := h
  simp only [Lexeme.length] at hlength
  split at hlength
  · next hmark =>
    rw [Bool.and_eq_true] at hmark
    rw [htext, ← hlength, Lexeme.take_of_isPrefixOf hmark.1]
  · exact absurd hlength.symm hne

/-- A node over what its form reads is shaped. -/
theorem shaped_of_enclose (hgrammar : grammar.Fit) {kind : Kind} {form : Form}
    {cursor after : Cursor} {trees children extras : List Tree} {span : Span}
    (hform : (Form.node kind form).isFit = true) (hread : Reads grammar form cursor trees after)
    (hfits : ∀ tree ∈ trees, tree.Fits) (hsplit : Form.splitExtras trees = (children, extras))
    (htrees : trees = children ++ extras) (hne : children ≠ []) :
    Tree.Shaped ⟨kind, none, span, "", children⟩ := by
  have hmem : ∀ child ∈ children, child ∈ trees := fun child hchild => by
    rw [htrees]
    exact List.mem_append_left _ hchild
  simp only [Form.isFit, Bool.and_eq_true, bne_iff_ne, Bool.not_eq_true'] at hform
  obtain ⟨⟨⟨⟨⟨⟨hname, hextra⟩, hfirst⟩, htops⟩, hsealed⟩, hordered⟩, hbrackets⟩ := hform
  -- What is left: what it may hold, brackets, the first child, what is sealed, and the order.
  refine ⟨?_, fun hne => absurd rfl hne, fun h => ?_, fun hne => absurd rfl hne,
    fun hne => absurd rfl hne, ?_, ?_, ?_, ?_, 
    fun child hchild => (hfits child (hmem child hchild)).label.parameters,
    fun child hchild => (hfits child (hmem child hchild)).label.name⟩
  · intro child hchild
    exact hread.topsOf hgrammar.headsRight (fun other => Kind.mayHold_of_not_isTelling kind) htops
      child (hmem child hchild)
  · rcases h with h | h
    · exact absurd h hname
    · exact absurd (hextra.symm.trans h) Bool.false_ne_true
  · intro hkind
    rw [show (Tree.mk kind none span "" children).kind = kind from rfl] at hkind
    rw [hkind, Bool.not_true, Bool.false_or] at hbrackets
    split at hbrackets
    · next first start unlike last stop unlike' hform =>
      rw [Bool.and_eq_true, Bool.not_eq_true'] at hbrackets
      obtain ⟨opening, inner, closing, hchildren, hopening, hclosing⟩ :=
        hread.bracketed hform hbrackets.1
      rw [hsplit] at hchildren
      refine ⟨opening, inner, closing, hchildren, ?_⟩
      rw [hopening.lexeme_eq, hclosing.lexeme_eq]
      exact hbrackets.2
    · exact absurd hbrackets (by decide)
  · intro _ hkind _
    rw [Bool.or_eq_true, beq_iff_eq] at hfirst
    obtain ⟨first, rest, rfl⟩ := List.exists_cons_of_ne_nil hne
    refine ⟨first, rest, rfl, ?_⟩
    exact hread.first hgrammar.nodesRight hgrammar.proper (hfirst.resolve_left hkind)
      (by rw [htrees]; rfl)
  · intro hkind child hchild
    rw [show (Tree.mk kind none span "" children).kind = kind from rfl] at hkind
    rw [hkind, Bool.not_true, Bool.false_or] at hsealed
    have hdeep : Grammar.Kinds (!·.isMember) child := hread.deep (fun other hother => by
      rw [Kind.isMember_of_isExtra hother]; rfl) rfl hgrammar.inner hsealed child
      (hmem child hchild)
    exact hdeep.imp fun node hnode => by simpa only [Bool.not_eq_true'] using hnode
  · intro pair hpair
    have hcheck := List.all_eq_true.1 hordered pair hpair
    simp only [Bool.and_eq_true] at hcheck
    have hapart := hread.pairwise hgrammar.headsRight hgrammar.nodesRight hcheck.1.1 hcheck.1.2
      hcheck.2
    refine List.Pairwise.sublist ?_ hapart
    rw [htrees, List.map_append]
    exact List.sublist_append_left _ _

/-- A label that a form gives fits the tree that it reads first. -/
theorem fits_of_label (hgrammar : grammar.Fit) {part : Label} {form : Form} {cursor after : Cursor}
    {first : Tree} {rest : List Tree} (hform : (Form.label part form).isFit = true)
    (hread : Reads grammar form cursor (first :: rest) after) (hfits : first.Fits) :
    Tree.Fits { first with label := some part } := by
  simp only [Form.isFit, Bool.and_eq_true, Bool.or_eq_true, bne_iff_ne] at hform
  refine ⟨Tree.Shaped.relabel hfits.every _, fun hpart => ?_, fun hpart => ?_⟩
  · simp only [Option.some.injEq] at hpart
    obtain ⟨kind, hkind, hparameters⟩ :=
      (Option.any_eq_true _ _).1 (hform.1.resolve_left fun hne => hne hpart)
    obtain ⟨tree, more, heq, htree⟩ := hread.kind_of_firstKind? hgrammar.nodesRight hkind
    rw [List.cons.injEq] at heq
    rw [show ({ first with label := some part } : Tree).kind = first.kind from rfl, heq.1, htree]
    exact hparameters
  · simp only [Option.some.injEq] at hpart
    have hopens : first.kind.mayOpen = true := hread.first hgrammar.nodesRight
      hgrammar.proper (hform.2.resolve_left fun hne => hne hpart) rfl
    exact hopens

/-- A node that grows over a base is shaped. -/
theorem fits_of_withBase {first node : Tree} {rest : List Tree}
    (hbase : ∀ tree ∈ first :: rest, tree.kind.isTelling = false)
    (hfirst : first.kind.mayOpen = true) (hplain : node.kind.isPlain = true)
    (hlexeme : node.lexeme = "") (hfits : ∀ tree ∈ first :: rest, tree.Fits) (hnode : node.Fits) :
    (withBase first rest node).Fits := by
  -- What a base is labelled with is never what would make demands on its kind.
  have hlabel : ∀ kind, Form.grownLabel kind ≠ some .parameters
      ∧ Form.grownLabel kind ≠ some .name := by
    intro kind
    unfold Form.grownLabel
    split <;>
      simp only [ne_eq, Option.some.injEq, reduceCtorEq, not_false_eq_true, and_self]
  have hshaped := hnode.every.here
  refine ⟨.intro (Tree.shaped_of_isPlain hplain ?_ (fun hne => absurd hlexeme hne) hshaped.named
    hshaped.composite hshaped.solid (fun _ _ _ => ⟨_, _, rfl, hfirst⟩) ?_) ?_,
    hnode.label.parameters, hnode.label.name⟩
  · exact forall_withBase (Kind.mayHold_of_not_isTelling _ (hbase first List.mem_cons_self))
      (fun child hchild =>
        Kind.mayHold_of_not_isTelling _ (hbase child (List.mem_cons_of_mem _ hchild)))
      hshaped.holds
  · exact forall_withBase ⟨fun h => absurd h (hlabel _).1, fun h => absurd h (hlabel _).2⟩
      (fun child hchild => (hfits child (List.mem_cons_of_mem _ hchild)).label)
      fun child hchild => ⟨hshaped.parameters child hchild, hshaped.names child hchild⟩
  · exact forall_withBase (Tree.Shaped.relabel (hfits first List.mem_cons_self).every _)
      (fun child hchild => (hfits child (List.mem_cons_of_mem _ hchild)).every)
      fun child hchild => hnode.every.child hchild

/-- What a grammar that fits reads is shaped. -/
theorem Reads.shaped (hgrammar : grammar.Fit) {form : Form} {cursor after : Cursor}
    {trees : List Tree} (h : Reads grammar form cursor trees after)
    (hform : form.everywhere Form.isFit = true) : ∀ tree ∈ trees, tree.Fits := by
  -- Asides and tokens fit by themselves; what is left are nodes, labels and growth.
  refine h.forall_mem hgrammar.everywhere.inherits (fun tree haside => haside.fits)
    (fun hform => fits_of_take hform) ?_ ?_ ?_ hform
  · intro kind form cursor after trees children extras span hform hread hfits hsplit htrees hne
    simp only [Form.everywhere, Bool.and_eq_true] at hform
    exact ⟨.intro (shaped_of_enclose hgrammar hform.1 hread hfits hsplit htrees hne)
      fun child hchild => (hfits child (htrees ▸ List.mem_append_left _ hchild)).every,
      Tree.labelFits_of_none rfl⟩
  · intro part form cursor after first rest hform hread hfits
    simp only [Form.everywhere, Bool.and_eq_true] at hform
    exact fits_of_label hgrammar hform.1 hread hfits
  · intro base step cursor middle after first node rest extras hform hread hstep hfits hnode
    simp only [Form.everywhere, Form.isFit, Bool.and_eq_true] at hform
    obtain ⟨⟨⟨⟨⟨hnodeFirst, hplain⟩, htelling⟩, hfirst⟩, -⟩, -⟩ := hform
    refine fits_of_withBase (fun tree hmem => ?_)
      (hread.first hgrammar.nodesRight hgrammar.proper hfirst rfl) ?_
      (hstep.starts_node hnodeFirst rfl).1 hfits hnode
    · have hkind : (!tree.kind.isTelling) = true := hread.topsOf hgrammar.headsRight
        (fun kind hkind => by rw [hkind]; rfl) htelling tree hmem
      simpa only [Bool.not_eq_true'] using hkind
    · exact hstep.tops hgrammar.headsRight (fun kind => Kind.isPlain_of_isExtra)
        (fun _ hfalse => absurd hfalse Bool.false_ne_true) hplain node List.mem_cons_self

end Grammar

end SharpLint

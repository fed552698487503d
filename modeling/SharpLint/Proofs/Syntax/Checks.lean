import SharpLint.Proofs.Syntax.Layout
import SharpLint.Proofs.Syntax.Solid

/-!
# Checks of Forms

What can be told of the trees that a form reads by looking at the form. A check
is a Boolean function of a form; where it holds, a theorem about the trees of
every derivation follows. Checks are evaluated on the finitely many forms of
the language.

A form that calls a phrase is judged by `Phrase.heads`, which says of the
*telling* kinds, those that a check may ask for, which of them a phrase may
read at its top.

## Main definitions

* `Kind.isTelling`: the kinds that a check may ask for.
* `Phrase.heads`: the telling kinds at the top of a phrase.
* `Form.topsWithin`: a bound on the kinds that a form reads at its top.
* `Form.deepWithin`: a bound on the kinds that a form reads at any depth.
* `Form.firstWithin`: a bound on the kind of the first tree that a form reads.
* `Form.noAfter`: no node of one kind behind a node of another.
* `Form.brackets?`: the tokens that a form begins and ends with.
* `Grammar.Inherits`: a check that goes on to the parts of a form.

## Theorems

* `Grammar.Reads.forall_mem`: What a check gives for the trees of one form holds of all.
* `Grammar.Reads.tops`: The bound on the kinds at the top holds.
* `Grammar.Reads.deep`: The bound on the kinds at any depth holds.
* `Grammar.Reads.pairwise`: Nodes do not come in the excluded order.
* `Grammar.Reads.first`: The bound on the kind of the first tree holds.
* `Grammar.Reads.bracketed`: The tokens stand around what is read.
-/

namespace SharpLint

namespace Kind

/-- The kinds of the declarations that a type or a namespace may hold and that
    fixes deal with. -/
def isMember : Kind → Bool
  | .fieldDeclaration | .constructorDeclaration | .classDeclaration | .structDeclaration
  | .recordDeclaration | .recordStructDeclaration => true
  | _ => false

/-- The kinds that a check may ask for. The token without a text of its own is
    the one that stands for anything. -/
def isTelling : Kind → Bool
  | .parameter | .parameterList | .bracketedParameterList | .implicitParameter
  | .arrowExpressionClause | .constructorInitializer | .variableDeclaration | .variableDeclarator
  | .token "" => true
  | kind => kind.isMember

/-- The tokens that need not begin and end with ink: stretches of a string with
    holes, the end of a line, and whatever fits no form. -/
def mayBeBlank : Kind → Bool
  | .stringContent | .token "" | .token "\n" => true
  | _ => false

/-- Whether a node may begin with a child of the kind. -/
def mayOpen (kind : Kind) : Bool :=
  !kind.isExtra && !kind.mayBeBlank && kind != .error

/-- Extras are not told apart by the checks. -/
theorem not_isTelling_of_isExtra {kind : Kind} (h : kind.isExtra = true) :
    kind.isTelling = false := by
  cases kind <;> first | rfl | exact absurd h Bool.false_ne_true

end Kind

namespace Phrase

/-- The telling kinds that a phrase may read at its top. -/
def heads : Phrase → List Kind
  | .parameterList => [.parameterList]
  | .functionBody => [.arrowExpressionClause]
  | .variableDeclaration => [.variableDeclaration]
  | .unit | .part .items => [.classDeclaration, .structDeclaration, .recordDeclaration]
  | .part .members =>
    [.fieldDeclaration, .constructorDeclaration, .classDeclaration, .structDeclaration,
      .recordDeclaration]
  | .group | .debris => [.token ""]
  | _ => []

/-- Whether a phrase may read a node of the kind at its top, as far as `heads`
    tells. -/
def mayHead (phrase : Phrase) (kind : Kind) : Bool :=
  !kind.isTelling || phrase.heads.contains kind

/-- Whether all that a phrase may read at its top satisfies `ok`, if kinds that
    are not telling do. -/
def headsWithin (ok : Kind → Bool) (phrase : Phrase) : Bool :=
  phrase.heads.all ok

/-- The kind of the node that the form of a phrase is, where it is one. -/
def node? : Phrase → Option Kind
  | .parameterList => some .parameterList
  | .variableDeclaration => some .variableDeclaration
  | _ => none

/-- The phrases that do not stand for anything at all. -/
def isProper : Phrase → Bool
  | .group | .debris => false
  | _ => true

/-- The phrases in which no declaration of a member stands at any depth. -/
def isInner : Phrase → Bool
  | .unit | .part .items | .part .members | .conditional .items | .conditional .members
  | .alternative .items | .alternative .members | .declarationList => false
  | _ => true

theorem of_headsWithin {ok : Kind → Bool} (hplain : ∀ kind, kind.isTelling = false → ok kind = true)
    {phrase : Phrase} (h : phrase.headsWithin ok = true) {kind : Kind}
    (hkind : phrase.mayHead kind = true) : ok kind = true := by
  rw [mayHead, Bool.or_eq_true, Bool.not_eq_true'] at hkind
  rcases hkind with hkind | hkind
  · exact hplain kind hkind
  · exact List.all_eq_true.1 h kind (List.contains_iff_mem.1 hkind)

end Phrase

namespace Form

/-- All kinds at the top of what the form reads satisfy `ok`, if those at the
    top of the phrases that satisfy `okCall` do. -/
def topsWithin (ok : Kind → Bool) (okCall : Phrase → Bool) : Form → Bool
  | token kind _ _ => ok kind
  | node kind _ => ok kind
  | seq first second => topsWithin ok okCall first && topsWithin ok okCall second
  | alt first second => topsWithin ok okCall first && topsWithin ok okCall second
  | many form => topsWithin ok okCall form
  | label _ form => topsWithin ok okCall form
  | call phrase => okCall phrase
  | grow base step => topsWithin ok okCall base && topsWithin ok okCall step
  | _ => true

/-- All kinds at any depth of what the form reads satisfy `ok`, if it calls
    phrases that satisfy `okCall` only and those do. -/
def deepWithin (ok : Kind → Bool) (okCall : Phrase → Bool) : Form → Bool
  | token kind _ _ => ok kind
  | node kind form => ok kind && deepWithin ok okCall form
  | seq first second => deepWithin ok okCall first && deepWithin ok okCall second
  | alt first second => deepWithin ok okCall first && deepWithin ok okCall second
  | many form => deepWithin ok okCall form
  | label _ form => deepWithin ok okCall form
  | call phrase => okCall phrase
  | grow base step => deepWithin ok okCall base && deepWithin ok okCall step
  | _ => true

/-- Whether what the form reads is never empty, as far as the form alone tells
    it. -/
def isNonempty : Form → Bool
  | token .. => true
  | node .. => true
  | seq first second => isNonempty first || isNonempty second
  | alt first second => isNonempty first && isNonempty second
  | label _ form => isNonempty form
  | call phrase => phrase.node?.isSome
  | grow base _ => isNonempty base
  | _ => false

/-- The first tree that the form reads is of a kind that satisfies `ok`, if it
    is so with the phrases that satisfy `okCall` and no others are called. -/
def firstWithin (ok : Kind → Bool) (okCall : Phrase → Bool) : Form → Bool
  | token kind _ _ => ok kind
  | node kind _ => ok kind
  | seq first second =>
    firstWithin ok okCall first && (isNonempty first || firstWithin ok okCall second)
  | alt first second => firstWithin ok okCall first && firstWithin ok okCall second
  | many form => firstWithin ok okCall form
  | label _ form => firstWithin ok okCall form
  | call phrase => okCall phrase
  | grow base step => firstWithin ok okCall base && firstWithin ok okCall step
  | _ => true

/-- Whether the form may read a node of the telling kind at its top. -/
def mayRead (kind : Kind) (form : Form) : Bool :=
  !form.topsWithin (· != kind) (Phrase.headsWithin (· != kind))

/-- The kind of the node that the form is, where it is one. -/
def node? : Form → Option Kind
  | node kind _ => some kind
  | _ => none

/-- The kind of the first tree that the form reads, where the form alone tells
    it. -/
def firstKind? : Form → Option Kind
  | token kind _ _ => some kind
  | node kind _ => some kind
  | call phrase => phrase.node?
  | _ => none

/-- At the top of what the form reads, no node of kind `b` stands behind one
    of kind `a`. -/
def noAfter (a b : Kind) : Form → Bool
  | seq first second =>
    noAfter a b first && noAfter a b second && !(mayRead a first && mayRead b second)
  | alt first second => noAfter a b first && noAfter a b second
  | many form => !(mayRead a form && mayRead b form) && noAfter a b form
  | label _ form => noAfter a b form
  | call phrase => phrase.node?.isSome || !(mayRead a (call phrase) && mayRead b (call phrase))
  | grow base step => !mayRead b (grow base step)
  | _ => true

/-- The kinds and classes of the tokens that stand around what the form
    reads. -/
def brackets? : Form → Option ((Kind × Lexeme) × Kind × Lexeme)
  | seq (token first start _) (seq _ (seq (token last stop _) nothing)) =>
    some ((first, start), last, stop)
  | _ => none

end Form

namespace Grammar

variable {grammar : Grammar}

/-- Every phrase reads at its top what `heads` says. -/
def HeadsRight (grammar : Grammar) : Prop :=
  ∀ phrase : Phrase,
    (grammar phrase).topsWithin phrase.mayHead (Phrase.headsWithin phrase.mayHead) = true

/-! ### Gaps -/

/-- A word inside a directive: a comment, or a name of ink. -/
structure IsWord (tree : Tree) : Prop where
  label : tree.label = none
  leaf : tree.children = []
  text : tree.lexeme ≠ ""
  kind : tree.kind = .comment ∨ tree.kind = .identifier ∧ Text.Solid tree.lexeme.toList

/-- A comment or directive in a gap. -/
structure IsAside (tree : Tree) : Prop where
  extra : tree.isExtra = true
  label : tree.label = none
  text : tree.lexeme ≠ ""
  leaf : tree.kind = .preprocPragma ∨ tree.children = []
  words : ∀ child ∈ tree.children, IsWord child

theorem isWord_of_wordsFrom (fuel offset : Nat) (text : Text) :
    ∀ tree ∈ Gap.wordsFrom fuel offset text, IsWord tree := by
  induction fuel generalizing offset text with
  | zero => simp only [Gap.wordsFrom, List.not_mem_nil, false_implies, implies_true]
  | succ fuel ih =>
      cases text with
      | nil => simp only [Gap.wordsFrom, List.not_mem_nil, false_implies, implies_true]
      | cons c rest =>
          -- A comment is a word whatever is in it; other words are the characters of an identifier.
          by_cases hcomment : Gap.commentLength (c :: rest) = 0
          · simp only [Gap.wordsFrom, if_pos hcomment]
            split
            · exact ih _ _
            · next hne =>
              intro tree hmem
              rcases List.mem_cons.1 hmem with rfl | hmem
              · refine ⟨rfl, rfl, Cursor.lexeme_ne_empty (List.cons_ne_nil c rest) hne,
                  .inr ⟨rfl, ?_⟩⟩
                simp only [Tree.ofToken, String.toList_ofList]
                exact Lexeme.solid_of_inked (Lexeme.inked_identifier _) hne
                  (List.cons_ne_nil c rest)
              · exact ih _ _ tree hmem
          · simp only [Gap.wordsFrom, if_neg hcomment]
            intro tree hmem
            rcases List.mem_cons.1 hmem with rfl | hmem
            · exact ⟨rfl, rfl, Cursor.lexeme_ne_empty (List.cons_ne_nil c rest) hcomment, .inl rfl⟩
            · exact ih _ _ tree hmem

theorem isWord_of_directiveChildren {kind : Kind} {offset : Nat} {text : Text} {tree : Tree}
    (h : tree ∈ Gap.directiveChildren kind offset text) : kind = .preprocPragma ∧ IsWord tree := by
  unfold Gap.directiveChildren at h
  split at h
  · next hkind =>
    split at h
    · next first warning third words heq =>
      split at h
      · refine ⟨hkind, isWord_of_wordsFrom text.length offset text tree ?_⟩
        rw [heq]
        exact List.mem_cons_of_mem _ (List.mem_cons_of_mem _ (List.mem_cons_of_mem _ h))
      · exact absurd h List.not_mem_nil
    · exact absurd h List.not_mem_nil
  · exact absurd h List.not_mem_nil

theorem isExtra_of_directive? {text : Text} {kind : Kind} {n : Nat}
    (h : Gap.directive? text = some (kind, n)) : kind.isExtra = true := by
  have hdirectives : ∀ entry ∈ Gap.directives, entry.2.isExtra = true := by decide
  obtain ⟨rest, blanks, word, -, hentry, -⟩ := Gap.directive?_eq_some h
  exact hdirectives _ hentry

theorem isAside_of_extra? {gap : Gap} {cursor behind : Cursor} {tree : Tree}
    (h : gap.extra? cursor = some (tree, behind)) : IsAside tree := by
  unfold Gap.extra? at h
  split at h
  · split at h
    · obtain ⟨⟨kind, n⟩, hdirective, htree⟩ := Option.map_eq_some_iff.1 h
      simp only [Prod.mk.injEq] at htree
      obtain ⟨rfl, rfl⟩ := htree
      obtain ⟨hne, hnil⟩ := Gap.length_directive?_ne_zero hdirective
      refine ⟨isExtra_of_directive? hdirective, rfl, Cursor.lexeme_ne_empty hnil hne, ?_,
        fun child hchild =>
        (isWord_of_directiveChildren hchild).2⟩
      cases hchildren : Gap.directiveChildren kind cursor.offset (cursor.rest.take n) with
      | nil => exact .inr rfl
      | cons child children =>
          exact .inl (isWord_of_directiveChildren (hchildren ▸ List.mem_cons_self)).1
    · exact absurd h (by simp only [reduceCtorEq, not_false_eq_true])
  · next hne =>
    have hrest : cursor.rest ≠ [] := fun hnil => hne (by rw [hnil, Gap.commentLength_nil])
    simp only [Option.some.injEq, Cursor.take, Prod.mk.injEq] at h
    rw [← h.1]
    exact ⟨rfl, rfl, Cursor.lexeme_ne_empty hrest hne, .inr rfl, by
      simp only [Tree.ofToken, List.not_mem_nil, false_implies, implies_true]⟩

/-- What stands in a gap are comments and directives. -/
theorem isAside_of_skip {gap : Gap} (fuel : Nat) {cursor after : Cursor} {trees : List Tree}
    (h : gap.skip fuel cursor = (trees, after)) : ∀ tree ∈ trees, IsAside tree := by
  -- Each round skips blanks and reads one aside, until the gap ends or the fuel does.
  induction fuel generalizing cursor after trees with
  | zero =>
      simp only [Gap.skip, Prod.mk.injEq] at h
      obtain ⟨rfl, rfl⟩ := h
      simp only [List.not_mem_nil, false_implies, implies_true]
  | succ fuel ih =>
      simp only [Gap.skip] at h
      split at h
      · simp only [Prod.mk.injEq] at h
        obtain ⟨rfl, rfl⟩ := h
        simp only [List.not_mem_nil, false_implies, implies_true]
      · split at h
        · simp only [Prod.mk.injEq] at h
          obtain ⟨rfl, rfl⟩ := h
          simp only [List.not_mem_nil, false_implies, implies_true]
        · next tree behind hextra =>
          generalize hskip : Gap.skip gap fuel behind = skipped at h
          obtain ⟨more, last⟩ := skipped
          simp only [Prod.mk.injEq] at h
          obtain ⟨rfl, rfl⟩ := h
          intro t hmem
          rcases List.mem_cons.1 hmem with rfl | hmem
          · exact isAside_of_extra? hextra
          · exact ih hskip t hmem

/-! ### Reading steps -/

/-- The extras that `splitExtras` sets apart are extras. -/
theorem isExtra_of_splitExtras (trees : List Tree) :
    ∀ tree ∈ (Form.splitExtras trees).2, tree.isExtra = true := by
  induction trees with
  | nil => simp only [Form.splitExtras, List.not_mem_nil, false_implies, implies_true]
  | cons tree trees ih =>
      simp only [Form.splitExtras]
      split
      · next extras heq =>
        rw [heq] at ih
        split
        · next htree =>
          intro t hmem
          rcases List.mem_cons.1 hmem with rfl | hmem
          · exact htree
          · exact ih t hmem
        · exact ih
      · next inner extras _ heq =>
        rw [heq] at ih
        exact ih

/-- The last tree that is no extra ends what is enclosed. -/
theorem splitExtras_eq {before extras : List Tree} {last : Tree} (hlast : last.isExtra = false)
    (hextras : ∀ tree ∈ extras, tree.isExtra = true) :
    Form.splitExtras (before ++ last :: extras) = (before ++ [last], extras) := by
  have hall : Form.splitExtras extras = ([], extras) := by
    induction extras with
    | nil => rfl
    | cons tree trees ih =>
        rw [Form.splitExtras, ih fun t hmem => hextras t (List.mem_cons_of_mem _ hmem)]
        exact if_pos (hextras tree List.mem_cons_self)
  induction before with
  | nil =>
      rw [List.nil_append, Form.splitExtras, hall]
      exact if_neg (by rw [hlast]; decide)
  | cons tree trees ih =>
      rw [List.cons_append, Form.splitExtras, ih]
      cases trees <;> rfl

/-- A node over some trees, and the extras behind it. -/
theorem enclosed_eq {kind : Kind} {trees enclosed : List Tree}
    (h : Form.enclose kind trees = some enclosed) :
    ∃ children extras span, Form.splitExtras trees = (children, extras)
      ∧ trees = children ++ extras ∧ children ≠ []
      ∧ enclosed = ⟨kind, none, span, "", children⟩ :: extras
      ∧ ∀ tree ∈ extras, tree.isExtra = true := by
  have hextras := isExtra_of_splitExtras trees
  have happend := Form.splitExtras_append trees
  unfold Form.enclose at h
  split at h
  · exact absurd h (by simp only [reduceCtorEq, not_false_eq_true])
  · next first inner extras heq =>
    rw [heq] at happend hextras
    simp only [Option.some.injEq] at h
    exact ⟨first :: inner, extras, _, heq, happend.symm, List.cons_ne_nil first inner, h.symm,
      hextras⟩

theorem map_kind_relabel (part : Label) (trees : List Tree) :
    (Form.relabel part trees).map Tree.kind = trees.map Tree.kind := by
  cases trees <;> rfl

/-- The node that grows over a base, which starts with `first`. -/
def withBase (first : Tree) (rest : List Tree) (node : Tree) : Tree :=
  { node with
    span := ⟨first.span.start, node.span.stop⟩
    children := { first with label := Form.grownLabel node.kind } :: rest ++ node.children }

/-- What holds of the base, of what grows and of the node over the base holds of
    all that is read. -/
theorem forall_adopt {P : Tree → Prop} {base grown : List Tree} (hbase : ∀ tree ∈ base, P tree)
    (hgrown : ∀ tree ∈ grown, P tree)
    (hgrow : ∀ first rest node extras, base = first :: rest → grown = node :: extras →
      P (withBase first rest node)) : ∀ tree ∈ Form.adopt base grown, P tree := by
  intro tree hmem
  unfold Form.adopt at hmem
  split at hmem
  · next first rest node extras =>
    rcases List.mem_cons.1 hmem with rfl | hmem
    · exact hgrow first rest node extras rfl rfl
    · exact hgrown tree (List.mem_cons_of_mem _ hmem)
  · exact hbase tree hmem

/-- The children of the node over a base are the base, what follows it, and
    those that the node has. -/
theorem forall_withBase {P : Tree → Prop} {first : Tree} {rest : List Tree} {node : Tree}
    (hfirst : P { first with label := Form.grownLabel node.kind }) (hrest : ∀ child ∈ rest, P child)
    (hnode : ∀ child ∈ node.children, P child) :
    ∀ child ∈ (withBase first rest node).children, P child := by
  intro child hchild
  rcases List.mem_append.1 hchild with hchild | hchild
  · rcases List.mem_cons.1 hchild with rfl | hchild
    · exact hfirst
    · exact hrest child hchild
  · exact hnode child hchild

/-! ### What holds of every tree -/

/-- A check of forms that goes on to the parts of a form, and to the forms of
    the phrases that it calls. -/
structure Inherits (grammar : Grammar) (ok : Form → Prop) : Prop where
  seq {first second : Form} : ok (.seq first second) → ok first ∧ ok second
  alt {first second : Form} : ok (.alt first second) → ok first ∧ ok second
  many {form : Form} : ok (.many form) → ok form
  node {kind : Kind} {form : Form} : ok (.node kind form) → ok form
  label {part : Label} {form : Form} : ok (.label part form) → ok form
  grow {base step : Form} : ok (.grow base step) → ok base ∧ ok step
  call {phrase : Phrase} : ok (.call phrase) → ok (grammar phrase)

/-- A check of every part is inherited. -/
theorem Everywhere.inherits {p : Form → Bool} (h : grammar.Everywhere p) :
    grammar.Inherits (·.everywhere p = true) where
  seq hform := by
    simp only [Form.everywhere, Bool.and_eq_true] at hform
    exact ⟨hform.1.2, hform.2⟩
  alt hform := by
    simp only [Form.everywhere, Bool.and_eq_true] at hform
    exact ⟨hform.1.2, hform.2⟩
  many hform := by
    simp only [Form.everywhere, Bool.and_eq_true] at hform
    exact hform.2
  node hform := by
    simp only [Form.everywhere, Bool.and_eq_true] at hform
    exact hform.2
  label hform := by
    simp only [Form.everywhere, Bool.and_eq_true] at hform
    exact hform.2
  grow hform := by
    simp only [Form.everywhere, Bool.and_eq_true] at hform
    exact ⟨hform.1.2, hform.2⟩
  call _ := h _

/-- What a check gives for tokens, for nodes over what is read, for labels and
    for what grows holds of every tree at the top, if asides have it. -/
theorem Reads.forall_mem {ok : Form → Prop} (hgrammar : grammar.Inherits ok) {P : Tree → Prop}
    (haside : ∀ tree, IsAside tree → P tree)
    (htoken : ∀ {kind : Kind} {lexeme : Lexeme} {gap : Gap} {cursor behind : Cursor} {tree : Tree},
      ok (.token kind lexeme gap) → lexeme.length cursor.rest ≠ 0 →
      cursor.take kind (lexeme.length cursor.rest) = (tree, behind) → P tree)
    (hnode : ∀ {kind : Kind} {form : Form} {cursor after : Cursor}
      {trees children extras : List Tree} {span : Span}, ok (.node kind form) →
      Reads grammar form cursor trees after → (∀ tree ∈ trees, P tree) →
      Form.splitExtras trees = (children, extras) → trees = children ++ extras → children ≠ [] →
      P ⟨kind, none, span, "", children⟩)
    (hlabel : ∀ {part : Label} {form : Form} {cursor after : Cursor} {first : Tree}
      {rest : List Tree}, ok (.label part form) → Reads grammar form cursor (first :: rest) after →
      P first → P { first with label := some part })
    (hgrow : ∀ {base step : Form} {cursor middle after : Cursor} {first node : Tree}
      {rest extras : List Tree}, ok (.grow base step) →
      Reads grammar (.grow base step) cursor (first :: rest) middle →
      Reads grammar step middle (node :: extras) after → (∀ tree ∈ first :: rest, P tree) →
      P node → P (withBase first rest node))
    {form : Form} {cursor after : Cursor} {trees : List Tree}
    (h : Reads grammar form cursor trees after) (hform : ok form) : ∀ tree ∈ trees, P tree := by
  induction h with
  | nothing | ahead | «unless» | glued | manyNone =>
      simp only [List.not_mem_nil, false_implies, implies_true]
  | token fits take skip =>
      intro tree hmem
      rcases List.mem_cons.1 hmem with rfl | hmem
      · exact htoken hform fits take
      · exact haside tree (isAside_of_skip _ skip tree hmem)
  | seq head tail ihHead ihTail =>
      obtain ⟨hfirst, hsecond⟩ := hgrammar.seq hform
      intro tree hmem
      exact (List.mem_append.1 hmem).elim (ihHead hfirst tree) (ihTail hsecond tree)
  | altFirst read ih => exact ih (hgrammar.alt hform).1
  | altSecond read ih => exact ih (hgrammar.alt hform).2
  | manyMore head tail ihHead ihTail =>
      intro tree hmem
      exact (List.mem_append.1 hmem).elim (ihHead (hgrammar.many hform) tree) (ihTail hform tree)
  | node read encloses ih =>
      have hread := ih (hgrammar.node hform)
      obtain ⟨children, extras, span, hsplit, htrees, hne, rfl, -⟩ := enclosed_eq encloses
      intro tree hmem
      rcases List.mem_cons.1 hmem with rfl | hmem
      · exact hnode hform read hread hsplit htrees hne
      · exact hread tree (htrees ▸ List.mem_append_right _ hmem)
  | @label part form cursor after trees read ih =>
      have hread := ih (hgrammar.label hform)
      cases trees with
      | nil => simp only [Form.relabel, List.not_mem_nil, false_implies, implies_true]
      | cons first rest =>
          intro tree hmem
          rcases List.mem_cons.1 hmem with rfl | hmem
          · exact hlabel hform read (hread first List.mem_cons_self)
          · exact hread tree (List.mem_cons_of_mem _ hmem)
  | call read ih => exact ih (hgrammar.call hform)
  | growBase read ih => exact ih (hgrammar.grow hform).1
  | growStep head tail ihHead ihTail =>
      have hbase := ihHead hform
      have hgrown := ihTail (hgrammar.grow hform).2
      refine forall_adopt hbase hgrown fun first rest node extras hfirst hstep => ?_
      subst hfirst hstep
      exact hgrow hform head tail hbase (hgrown node List.mem_cons_self)

/-! ### Kinds at the top -/

/-- The kinds at the top of what a form reads are among those it may read. -/
theorem Reads.tops (hgrammar : grammar.HeadsRight) {form : Form} {cursor after : Cursor}
    {trees : List Tree} (h : Reads grammar form cursor trees after) {ok : Kind → Bool}
    {okCall : Phrase → Bool} (hextra : ∀ kind, kind.isExtra = true → ok kind = true)
    (hcall : ∀ phrase, okCall phrase = true → ∀ kind, phrase.mayHead kind = true → ok kind = true)
    (hform : form.topsWithin ok okCall = true) : ∀ tree ∈ trees, ok tree.kind = true := by
  induction h generalizing ok okCall with
  | nothing | ahead | «unless» | glued | manyNone =>
      simp only [List.not_mem_nil, false_implies, implies_true]
  | @token kind lexeme gap limit cursor behind after tree extras fits take skip =>
      intro t hmem
      rcases List.mem_cons.1 hmem with rfl | hmem
      · simp only [Cursor.take, Prod.mk.injEq] at take
        rw [← take.1]
        exact hform
      · exact hextra _ (isAside_of_skip limit skip t hmem).extra
  | seq head tail ihHead ihTail =>
      simp only [Form.topsWithin, Bool.and_eq_true] at hform
      intro t hmem
      exact (List.mem_append.1 hmem).elim (ihHead hextra hcall hform.1 t)
        (ihTail hextra hcall hform.2 t)
  | altFirst read ih =>
      simp only [Form.topsWithin, Bool.and_eq_true] at hform
      exact ih hextra hcall hform.1
  | altSecond read ih =>
      simp only [Form.topsWithin, Bool.and_eq_true] at hform
      exact ih hextra hcall hform.2
  | manyMore head tail ihHead ihTail =>
      intro t hmem
      exact (List.mem_append.1 hmem).elim (ihHead hextra hcall hform t)
        (ihTail hextra hcall hform t)
  | node read encloses ih =>
      obtain ⟨children, extras, span, -, -, -, rfl, hextras⟩ := enclosed_eq encloses
      intro t hmem
      rcases List.mem_cons.1 hmem with rfl | hmem
      · exact hform
      · exact hextra _ (hextras t hmem)
  | @label part form cursor after trees read ih =>
      intro t hmem
      have hkinds := map_kind_relabel part trees
      obtain ⟨other, hother, hkind⟩ :=
        List.mem_map.1 (hkinds ▸ List.mem_map_of_mem hmem : t.kind ∈ trees.map Tree.kind)
      rw [← hkind]
      exact ih hextra hcall hform other hother
  | @call phrase cursor after trees read ih =>
      -- The phrase is judged by its heads alone, whatever the caller asks.
      have hheads : ∀ tree ∈ trees, phrase.mayHead tree.kind = true := ih
        (fun kind hkind => by rw [Phrase.mayHead, Kind.not_isTelling_of_isExtra hkind]; rfl)
        (fun other hother kind => Phrase.of_headsWithin
          (fun kind hkind => by rw [Phrase.mayHead, hkind]; rfl) hother)
        (hgrammar phrase)
      intro t hmem
      exact hcall phrase hform _ (hheads t hmem)
  | growBase read ih =>
      simp only [Form.topsWithin, Bool.and_eq_true] at hform
      exact ih hextra hcall hform.1
  | growStep head tail ihHead ihTail =>
      have hparts := hform
      simp only [Form.topsWithin, Bool.and_eq_true] at hparts
      have hgrown := ihTail hextra hcall hparts.2
      refine forall_adopt (ihHead hextra hcall hform) hgrown fun first rest node extras _ hstep => ?_
      exact hgrown node (hstep ▸ List.mem_cons_self)

/-- The heads of phrases are all that a check of tops has to know of them. -/
theorem Reads.topsOf (hgrammar : grammar.HeadsRight) {form : Form} {cursor after : Cursor}
    {trees : List Tree} (h : Reads grammar form cursor trees after) {ok : Kind → Bool}
    (hplain : ∀ kind, kind.isTelling = false → ok kind = true)
    (hform : form.topsWithin ok (Phrase.headsWithin ok) = true) :
    ∀ tree ∈ trees, ok tree.kind = true :=
  h.tops hgrammar (fun kind hkind => hplain kind (Kind.not_isTelling_of_isExtra hkind))
    (fun _ hphrase _ => Phrase.of_headsWithin hplain hphrase) hform

/-- A form that may not read a node of a kind reads none. -/
theorem Reads.ne_of_not_mayRead (hgrammar : grammar.HeadsRight) {form : Form}
    {cursor after : Cursor} {trees : List Tree} (h : Reads grammar form cursor trees after)
    {kind : Kind} (htelling : kind.isTelling = true) (hform : form.mayRead kind = false) :
    ∀ tree ∈ trees, tree.kind ≠ kind := by
  rw [Form.mayRead, Bool.not_eq_false'] at hform
  intro tree hmem
  have hne : (tree.kind != kind) = true :=
    h.topsOf hgrammar (fun other hother => ?_) hform tree hmem
  · simpa only [bne_iff_ne] using hne
  · rw [bne_iff_ne]
    rintro rfl
    rw [htelling] at hother
    exact absurd hother (by decide)

/-! ### Kinds at any depth -/

/-- Every node of the tree is of a kind that satisfies `ok`. -/
abbrev Kinds (ok : Kind → Bool) (tree : Tree) : Prop :=
  tree.Every fun node => ok node.kind = true

theorem IsAside.kinds {ok : Kind → Bool} (hextra : ∀ kind, kind.isExtra = true → ok kind = true)
    (hidentifier : ok .identifier = true) {tree : Tree} (h : IsAside tree) : Kinds ok tree := by
  refine .intro (hextra _ h.extra) fun child hchild => ?_
  have hword := h.words child hchild
  refine .intro ?_ fun inner hinner => ?_
  · rcases hword.kind with hkind | ⟨hkind, -⟩
    · rw [hkind]; exact hextra _ rfl
    · rw [hkind]; exact hidentifier
  · rw [hword.leaf] at hinner
    exact absurd hinner List.not_mem_nil

theorem Kinds.relabel {ok : Kind → Bool} {tree : Tree} (h : Kinds ok tree)
    (label : Option Label) : Kinds ok { tree with label } :=
  .intro h.here fun _ hchild => h.child hchild

/-- A bound on the kinds at any depth is inherited, if the phrases that may be
    called have it. -/
theorem inherits_deepWithin {ok : Kind → Bool} {okCall : Phrase → Bool}
    (hgrammar : ∀ phrase, okCall phrase = true → (grammar phrase).deepWithin ok okCall = true) :
    grammar.Inherits (·.deepWithin ok okCall = true) where
  seq hform := by simpa only [Form.deepWithin, Bool.and_eq_true] using hform
  alt hform := by simpa only [Form.deepWithin, Bool.and_eq_true] using hform
  many hform := hform
  node hform := by
    simp only [Form.deepWithin, Bool.and_eq_true] at hform
    exact hform.2
  label hform := hform
  grow hform := by simpa only [Form.deepWithin, Bool.and_eq_true] using hform
  call hform := hgrammar _ hform

/-- The kinds at any depth of what a form reads are among those it may read. -/
theorem Reads.deep {ok : Kind → Bool} {okCall : Phrase → Bool}
    (hextra : ∀ kind, kind.isExtra = true → ok kind = true) (hidentifier : ok .identifier = true)
    (hgrammar : ∀ phrase, okCall phrase = true → (grammar phrase).deepWithin ok okCall = true)
    {form : Form} {cursor after : Cursor} {trees : List Tree}
    (h : Reads grammar form cursor trees after) (hform : form.deepWithin ok okCall = true) :
    ∀ tree ∈ trees, Kinds ok tree := by
  refine h.forall_mem (inherits_deepWithin hgrammar)
    (fun tree haside => haside.kinds hextra hidentifier) ?_ ?_
    (fun _ _ hfirst => hfirst.relabel _) ?_ hform
  · intro kind lexeme gap cursor behind tree hform _ htake
    simp only [Cursor.take, Prod.mk.injEq] at htake
    rw [← htake.1]
    exact .intro hform (by
      simp only [Tree.ofToken, List.not_mem_nil, false_implies, implies_true])
  · intro kind form cursor after trees children extras span hform _ hread _ htrees _
    simp only [Form.deepWithin, Bool.and_eq_true] at hform
    exact .intro hform.1 fun child hchild =>
      hread child (htrees ▸ List.mem_append_left _ hchild)
  · intro base step cursor middle after first node rest extras _ _ _ hbase hnode
    exact .intro hnode.here (forall_withBase ((hbase first List.mem_cons_self).relabel _)
      (fun child hchild => hbase child (List.mem_cons_of_mem _ hchild))
      fun _ hchild => hnode.child hchild)

/-! ### Order at the top -/

/-- No node of kind `b` stands behind one of kind `a`. -/
def Apart (a b : Kind) (trees : List Tree) : Prop :=
  (trees.map Tree.kind).Pairwise fun first second => ¬(first = a ∧ second = b)

theorem apart_nil (a b : Kind) : Apart a b [] :=
  List.Pairwise.nil

/-- Where only one of two kinds is read first, no pair comes in its order. -/
theorem Apart.append {a b : Kind} {trees more : List Tree} (htrees : Apart a b trees)
    (hmore : Apart a b more)
    (hne : (∀ tree ∈ trees, tree.kind ≠ a) ∨ ∀ tree ∈ more, tree.kind ≠ b) :
    Apart a b (trees ++ more) := by
  unfold Apart
  rw [List.map_append, List.pairwise_append]
  refine ⟨htrees, hmore, fun x hx y hy hxy => ?_⟩
  obtain ⟨tree, hmem, rfl⟩ := List.mem_map.1 hx
  obtain ⟨other, hother, rfl⟩ := List.mem_map.1 hy
  exact hne.elim (fun h => h tree hmem hxy.1) fun h => h other hother hxy.2

/-- Where one of the kinds is missing, no pair comes in the excluded order. -/
theorem apart_of_ne {a b : Kind} {trees : List Tree}
    (hne : (∀ tree ∈ trees, tree.kind ≠ a) ∨ ∀ tree ∈ trees, tree.kind ≠ b) : Apart a b trees := by
  refine List.Pairwise.imp_of_mem (R := fun _ _ => True) (fun hx hy _ hpair => ?_)
    (List.pairwise_of_forall fun _ _ => trivial)
  obtain ⟨tree, hmem, rfl⟩ := List.mem_map.1 hx
  obtain ⟨other, hother, rfl⟩ := List.mem_map.1 hy
  exact hne.elim (fun h => h tree hmem hpair.1) fun h => h other hother hpair.2

/-- A tree with asides behind it. -/
theorem apart_cons {a b : Kind} (htelling : b.isTelling = true) {tree : Tree} {extras : List Tree}
    (hextras : ∀ extra ∈ extras, extra.isExtra = true) : Apart a b (tree :: extras) := by
  have hne : ∀ extra ∈ extras, extra.kind ≠ b := by
    rintro extra hmem rfl
    rw [Kind.not_isTelling_of_isExtra (hextras extra hmem)] at htelling
    exact absurd htelling (by decide)
  refine List.Pairwise.cons (fun kind hkind hpair => ?_) (apart_of_ne (.inr hne))
  obtain ⟨extra, hmem, rfl⟩ := List.mem_map.1 hkind
  exact hne extra hmem hpair.2

/-- The phrases that are said to be one node are. -/
def NodesRight (grammar : Grammar) : Prop :=
  ∀ (phrase : Phrase) (kind : Kind), phrase.node? = some kind → (grammar phrase).node? = some kind

/-- What a node form reads is a node with extras behind it. -/
theorem Reads.cons_of_node? {form : Form} {cursor after : Cursor} {trees : List Tree}
    (h : Reads grammar form cursor trees after) {kind : Kind} (hform : form.node? = some kind) :
    ∃ tree extras, trees = tree :: extras ∧ tree.kind = kind
      ∧ ∀ extra ∈ extras, extra.isExtra = true := by
  cases h with
  | node read encloses =>
      obtain ⟨children, extras, span, -, -, -, rfl, hextras⟩ := enclosed_eq encloses
      simp only [Form.node?, Option.some.injEq] at hform
      exact ⟨_, extras, rfl, hform, hextras⟩
  | _ => exact absurd hform (by simp only [Form.node?, reduceCtorEq, not_false_eq_true])

/-- No node of kind `b` is read behind one of kind `a`, where the form says
    so. -/
theorem Reads.pairwise (hheads : grammar.HeadsRight) (hnodes : grammar.NodesRight) {a b : Kind}
    (ha : a.isTelling = true) (hb : b.isTelling = true) {form : Form} {cursor after : Cursor}
    {trees : List Tree} (h : Reads grammar form cursor trees after)
    (hform : form.noAfter a b = true) : Apart a b trees := by
  have hcross {first second : Form} {cursor middle after : Cursor} {trees more : List Tree}
      (hfirst : Reads grammar first cursor trees middle)
      (hsecond : Reads grammar second middle more after)
      (hnot : (!(first.mayRead a && second.mayRead b)) = true) :
      (∀ tree ∈ trees, tree.kind ≠ a) ∨ ∀ tree ∈ more, tree.kind ≠ b := by
    rw [Bool.not_eq_true', Bool.and_eq_false_iff] at hnot
    exact hnot.imp (hfirst.ne_of_not_mayRead hheads ha) (hsecond.ne_of_not_mayRead hheads hb)
  -- Trees of `a` and `b` may meet where forms are read one after the other.
  induction h with
  | nothing | ahead | «unless» | glued | manyNone => exact apart_nil a b
  | token fits take skip =>
      exact apart_cons hb fun extra hmem => (isAside_of_skip _ skip extra hmem).extra
  | seq head tail ihHead ihTail =>
      simp only [Form.noAfter, Bool.and_eq_true] at hform
      exact (ihHead hform.1.1).append (ihTail hform.1.2) (hcross head tail hform.2)
  | altFirst read ih =>
      simp only [Form.noAfter, Bool.and_eq_true] at hform
      exact ih hform.1
  | altSecond read ih =>
      simp only [Form.noAfter, Bool.and_eq_true] at hform
      exact ih hform.2
  | @manyMore form cursor middle after trees more head tail ihHead ihTail =>
      have hparts := hform
      simp only [Form.noAfter, Bool.and_eq_true] at hparts
      exact (ihHead hparts.2).append (ihTail hform) (hcross head tail hparts.1)
  | node read encloses ih =>
      obtain ⟨children, extras, span, -, -, -, rfl, hextras⟩ := enclosed_eq encloses
      exact apart_cons hb hextras
  | label read ih =>
      unfold Apart
      rw [map_kind_relabel]
      exact ih hform
  | @call phrase cursor after trees read ih =>
      simp only [Form.noAfter, Bool.or_eq_true] at hform
      rcases hform with hform | hform
      · obtain ⟨kind, hkind⟩ := Option.isSome_iff_exists.1 hform
        obtain ⟨tree, extras, rfl, -, hextras⟩ := read.cons_of_node? (hnodes phrase kind hkind)
        exact apart_cons hb hextras
      · rw [Bool.not_eq_true', Bool.and_eq_false_iff] at hform
        exact apart_of_ne (hform.imp ((Reads.call read).ne_of_not_mayRead hheads ha)
          ((Reads.call read).ne_of_not_mayRead hheads hb))
  | growBase read ih =>
      simp only [Form.noAfter, Bool.not_eq_true'] at hform
      exact apart_of_ne (.inr ((Reads.growBase read).ne_of_not_mayRead hheads hb hform))
  | growStep head tail ihHead ihTail =>
      simp only [Form.noAfter, Bool.not_eq_true'] at hform
      exact apart_of_ne (.inr ((Reads.growStep head tail).ne_of_not_mayRead hheads hb hform))

/-! ### What comes first -/

/-- A form that is never empty reads a tree. -/
theorem Reads.ne_nil (hnodes : grammar.NodesRight) {form : Form} {cursor after : Cursor}
    {trees : List Tree} (h : Reads grammar form cursor trees after)
    (hform : form.isNonempty = true) : trees ≠ [] := by
  induction h with
  | nothing | ahead | «unless» | glued | manyNone | manyMore =>
      exact absurd hform Bool.false_ne_true
  | token fits take skip => exact List.cons_ne_nil _ _
  | seq head tail ihHead ihTail =>
      simp only [Form.isNonempty, Bool.or_eq_true] at hform
      rw [Ne, List.append_eq_nil_iff]
      exact fun hnil => hform.elim (ihHead · hnil.1) (ihTail · hnil.2)
  | altFirst read ih =>
      simp only [Form.isNonempty, Bool.and_eq_true] at hform
      exact ih hform.1
  | altSecond read ih =>
      simp only [Form.isNonempty, Bool.and_eq_true] at hform
      exact ih hform.2
  | node read encloses ih =>
      obtain ⟨children, extras, span, -, -, -, rfl, -⟩ := enclosed_eq encloses
      exact List.cons_ne_nil _ _
  | @label part form cursor after trees read ih =>
      cases trees with
      | nil => exact absurd rfl (ih hform)
      | cons first rest => exact List.cons_ne_nil _ _
  | @call phrase cursor after trees read ih =>
      obtain ⟨kind, hkind⟩ := Option.isSome_iff_exists.1 hform
      obtain ⟨tree, extras, rfl, -⟩ := read.cons_of_node? (hnodes phrase kind hkind)
      exact List.cons_ne_nil _ _
  | growBase read ih => exact ih hform
  | growStep head tail ihHead ihTail =>
      have hne := ihHead hform
      -- Adopting keeps at least the grown node or the base.
      unfold Form.adopt
      split
      · exact List.cons_ne_nil _ _
      · exact hne

/-- The first tree that a form reads is of a kind that may come first. -/
theorem Reads.first {ok : Kind → Bool} {okCall : Phrase → Bool} (hnodes : grammar.NodesRight)
    (hgrammar : ∀ phrase, okCall phrase = true → (grammar phrase).firstWithin ok okCall = true)
    {form : Form} {cursor after : Cursor} {trees : List Tree}
    (h : Reads grammar form cursor trees after) (hform : form.firstWithin ok okCall = true)
    {first : Tree} (hfirst : trees.head? = some first) : ok first.kind = true := by
  have none_eq_some {tree : Tree} : ¬ (List.head? ([] : List Tree) = some tree) := by
    simp only [List.head?_nil, reduceCtorEq, not_false_eq_true]
  induction h generalizing first with
  | nothing | ahead | «unless» | glued | manyNone => exact absurd hfirst none_eq_some
  | token fits take skip =>
      simp only [Cursor.take, Prod.mk.injEq] at take
      rw [← Option.some.inj hfirst, ← take.1]
      exact hform
  | seq head tail ihHead ihTail =>
      simp only [Form.firstWithin, Bool.and_eq_true, Bool.or_eq_true] at hform
      rw [List.head?_append, Option.or_eq_some_iff] at hfirst
      -- The second form comes first only if the first one is empty.
      rcases hfirst with hfirst | ⟨hnone, hfirst⟩
      · exact ihHead hform.1 hfirst
      · rcases hform.2 with hnonempty | hsecond
        · exact absurd (List.head?_eq_none_iff.1 hnone) (head.ne_nil hnodes hnonempty)
        · exact ihTail hsecond hfirst
  | altFirst read ih =>
      simp only [Form.firstWithin, Bool.and_eq_true] at hform
      exact ih hform.1 hfirst
  | altSecond read ih =>
      simp only [Form.firstWithin, Bool.and_eq_true] at hform
      exact ih hform.2 hfirst
  | manyMore head tail ihHead ihTail =>
      rw [List.head?_append, Option.or_eq_some_iff] at hfirst
      exact hfirst.elim (ihHead hform) fun h => ihTail hform h.2
  | node read encloses ih =>
      obtain ⟨children, extras, span, -, -, -, rfl, -⟩ := enclosed_eq encloses
      rw [← Option.some.inj hfirst]
      exact hform
  | @label part form cursor after trees read ih =>
      cases trees with
      | nil => exact absurd hfirst none_eq_some
      | cons tree rest =>
          rw [← Option.some.inj hfirst]
          have hkind := ih hform (rfl : (tree :: rest).head? = some tree)
          exact hkind
  | call read ih => exact ih (hgrammar _ hform) hfirst
  | growBase read ih =>
      simp only [Form.firstWithin, Bool.and_eq_true] at hform
      exact ih hform.1 hfirst
  | @growStep base step cursor middle after trees grown head tail ihHead ihTail =>
      have hparts := hform
      simp only [Form.firstWithin, Bool.and_eq_true] at hparts
      cases trees with
      | nil => exact absurd hfirst none_eq_some
      | cons tree rest =>
          cases grown with
          | nil => exact ihHead hform hfirst
          | cons grownOn extras =>
              rw [← Option.some.inj hfirst]
              have hkind := ihTail hparts.2 (rfl : (grownOn :: extras).head? = some grownOn)
              exact hkind

/-! ### Brackets -/

/-- The tree is a token of the class, read as the kind. -/
def IsTokenOf (kind : Kind) (lexeme : Lexeme) (tree : Tree) : Prop :=
  tree.kind = kind ∧ ∃ text n, lexeme.length text = n ∧ n ≠ 0 ∧ tree.lexeme.toList = text.take n

/-- What a token form reads is a token with asides behind it. -/
theorem Reads.cons_of_token {kind : Kind} {lexeme : Lexeme} {gap : Gap} {cursor after : Cursor}
    {trees : List Tree} (h : Reads grammar (.token kind lexeme gap) cursor trees after) :
    ∃ tree extras, trees = tree :: extras ∧ IsTokenOf kind lexeme tree
      ∧ ∀ extra ∈ extras, IsAside extra := by
  cases h with
  | token fits take skip =>
      refine ⟨_, _, rfl, ?_, isAside_of_skip _ skip⟩
      simp only [Cursor.take, Prod.mk.injEq] at take
      rw [← take.1]
      exact ⟨rfl, cursor.rest, _, rfl, fits, by simp only [Tree.ofToken, String.toList_ofList]⟩

/-- The first tree that a form reads is of the kind that the form tells. -/
theorem Reads.kind_of_firstKind? (hnodes : grammar.NodesRight) {form : Form}
    {cursor after : Cursor} {trees : List Tree} (h : Reads grammar form cursor trees after)
    {kind : Kind} (hform : form.firstKind? = some kind) :
    ∃ tree rest, trees = tree :: rest ∧ tree.kind = kind := by
  cases form with
  | token kind' lexeme gap =>
      obtain ⟨tree, extras, rfl, htoken, -⟩ := h.cons_of_token
      simp only [Form.firstKind?, Option.some.injEq] at hform
      exact ⟨tree, extras, rfl, htoken.1.trans hform⟩
  | node kind' form =>
      obtain ⟨tree, extras, rfl, htree, -⟩ := h.cons_of_node? rfl
      simp only [Form.firstKind?, Option.some.injEq] at hform
      exact ⟨tree, extras, rfl, htree.trans hform⟩
  | call phrase =>
      cases h with
      | call read =>
        obtain ⟨tree, extras, rfl, htree, -⟩ := read.cons_of_node? (hnodes phrase kind hform)
        exact ⟨tree, extras, rfl, htree⟩
  | _ => exact absurd hform (by simp only [Form.firstKind?, reduceCtorEq, not_false_eq_true])

/-- A node over what a form in brackets reads begins and ends with the
    brackets. -/
theorem Reads.bracketed {form : Form} {first last : Kind} {start stop : Lexeme}
    (h : form.brackets? = some ((first, start), last, stop)) (hlast : last.isExtra = false)
    {cursor after : Cursor} {trees : List Tree} (hread : Reads grammar form cursor trees after) :
    ∃ opening inner closing, (Form.splitExtras trees).1 = opening :: inner ++ [closing]
      ∧ IsTokenOf first start opening ∧ IsTokenOf last stop closing := by
  unfold Form.brackets? at h
  split at h
  · simp only [Option.some.injEq, Prod.mk.injEq] at h
    obtain ⟨⟨rfl, rfl⟩, rfl, rfl⟩ := h
    -- The form is a sequence of an opening token, what is inside, and a closing token.
    cases hread with
    | seq hstart hrest =>
      cases hrest with
      | @seq _ _ _ _ _ middle _ hmiddle hstop =>
        cases hstop with
        | seq hstop hnothing =>
          cases hnothing
          obtain ⟨opening, asides, rfl, hopening, -⟩ := hstart.cons_of_token
          obtain ⟨closing, extras, rfl, hclosing, hextras⟩ := hstop.cons_of_token
          refine ⟨opening, asides ++ middle, closing, ?_, hopening, hclosing⟩
          -- The trees behind the closing token are asides, and go to the extras.
          have hsplit : Form.splitExtras ((opening :: asides ++ middle) ++ closing :: extras) = _ :=
            splitExtras_eq (by rw [Tree.isExtra, hclosing.1]; exact hlast) fun tree hmem =>
              (hextras tree hmem).extra
          rw [List.append_nil, ← List.append_assoc, hsplit]
          rfl
  · exact absurd h (by simp only [reduceCtorEq, not_false_eq_true])

end Grammar

end SharpLint

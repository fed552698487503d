import SharpLint.Proofs.Syntax.Reads
import SharpLint.Proofs.Text.Cut

/-!
# Layout of Trees

How the nodes of a parsed tree lie on the source. The nodes that a form reads
stand in order between its two cursors, none of them empty; a node spans from
the start of its first child to the stop of its last; and a token's text is
what the source holds at its span.

All of it follows from one induction over derivations. Its only demand on the
grammar is `GrowsNodes`: what grows over a base is a node, since a token that
took in a base would keep its old text over a new span.

## Main definitions

* `Tree.Every`: a property of every node of a tree.
* `Tree.Tiles`: trees that stand in order between two offsets.
* `Tree.LaidOut`: how a node lies on a source.
* `Cursor.In`: a cursor that reads a source.
* `Form.startsNode`: a form whose first tree is a node.
* `Form.everywhere`: a check on every part of a form.

## Theorems

* `Tree.tiles_append`: Trees tile on from where others end.
* `Tree.wellFormed_of_every`: A tree that is laid out is well formed.
* `Grammar.Reads.laidOut`: What a form reads is laid out.
-/

namespace SharpLint

namespace Tree

/-- Every node of the tree has the property. -/
inductive Every (P : Tree → Prop) : Tree → Prop
  | intro {tree : Tree} (here : P tree) (below : ∀ child ∈ tree.children, Every P child) :
      Every P tree

theorem Every.here {P : Tree → Prop} {tree : Tree} (h : Every P tree) : P tree := by
  cases h with
  | intro here below => exact here

theorem Every.child {P : Tree → Prop} {tree child : Tree} (h : Every P tree)
    (hchild : child ∈ tree.children) : Every P child := by
  cases h with
  | intro here below => exact below child hchild

theorem Every.imp {P Q : Tree → Prop} (hPQ : ∀ tree, P tree → Q tree) {tree : Tree}
    (h : Every P tree) : Every Q tree := by
  induction h with
  | intro here below ih => exact .intro (hPQ _ here) ih

/-- The trees stand in order between two offsets, and none is empty. -/
def Tiles (start stop : Nat) : List Tree → Prop
  | [] => start ≤ stop
  | tree :: trees =>
    start ≤ tree.span.start ∧ tree.span.start < tree.span.stop
      ∧ Tiles tree.span.stop stop trees

theorem Tiles.le {start stop : Nat} {trees : List Tree} (h : Tiles start stop trees) :
    start ≤ stop := by
  induction trees generalizing start with
  | nil => exact h
  | cons tree trees ih =>
      have := ih h.2.2
      have := h.1
      have := h.2.1
      omega

theorem Tiles.widen {start start' stop stop' : Nat} {trees : List Tree}
    (h : Tiles start stop trees) (hstart : start' ≤ start) (hstop : stop ≤ stop') :
    Tiles start' stop' trees := by
  induction trees generalizing start start' with
  | nil =>
      have : start ≤ stop := h
      change start' ≤ stop'
      omega
  | cons tree trees ih => exact ⟨by have := h.1; omega, h.2.1, ih h.2.2 (Nat.le_refl _)⟩

theorem tiles_append {start stop : Nat} {trees more : List Tree} :
    Tiles start stop (trees ++ more) ↔
      ∃ middle, Tiles start middle trees ∧ Tiles middle stop more := by
  induction trees generalizing start with
  | nil =>
      constructor
      · intro h
        exact ⟨start, Nat.le_refl start, h⟩
      · rintro ⟨middle, hle, h⟩
        exact h.widen hle (Nat.le_refl stop)
  | cons tree trees ih =>
      constructor
      · rintro ⟨hstart, hspan, h⟩
        obtain ⟨middle, htrees, hmore⟩ := ih.1 h
        exact ⟨middle, ⟨hstart, hspan, htrees⟩, hmore⟩
      · rintro ⟨middle, ⟨hstart, hspan, htrees⟩, hmore⟩
        exact ⟨hstart, hspan, ih.2 ⟨middle, htrees, hmore⟩⟩

theorem Tiles.mem {start stop : Nat} {trees : List Tree} (h : Tiles start stop trees)
    {tree : Tree} (hmem : tree ∈ trees) :
    start ≤ tree.span.start ∧ tree.span.start < tree.span.stop ∧ tree.span.stop ≤ stop := by
  obtain ⟨before, after, rfl⟩ := List.append_of_mem hmem
  obtain ⟨middle, hbefore, hstart, hspan, hafter⟩ := tiles_append.1 h
  exact ⟨Nat.le_trans hbefore.le hstart, hspan, hafter.le⟩

/-- Trees that tile, tile from the first to the last of them. -/
theorem Tiles.trim {start stop : Nat} {first last : Tree} {trees : List Tree}
    (h : Tiles start stop (first :: trees)) (hlast : (first :: trees).getLast? = some last) :
    Tiles first.span.start last.span.stop (first :: trees) := by
  induction trees generalizing start first with
  | nil =>
      simp only [List.getLast?_singleton, Option.some.injEq] at hlast
      rw [← hlast]
      exact ⟨Nat.le_refl _, h.2.1, Nat.le_refl _⟩
  | cons second trees ih =>
      rw [List.getLast?_cons_cons] at hlast
      exact ⟨Nat.le_refl _, h.2.1, (ih h.2.2 hlast).widen h.2.2.1 (Nat.le_refl _)⟩

theorem Tiles.ordered {start stop : Nat} {trees : List Tree} (h : Tiles start stop trees) :
    Ordered start trees := by
  induction trees generalizing start with
  | nil => trivial
  | cons tree trees ih => exact ⟨h.1, Nat.le_of_lt h.2.1, ih h.2.2⟩

/-- Where a node lies on the source: its children stand in order inside it, it
    starts and stops between characters, a token's text is what the source
    holds there, and any other node reaches from its first child to its last.
    The root alone reaches to the end of the source. -/
structure LaidOut (source : Text) (tree : Tree) : Prop where
  proper : tree.span.start ≤ tree.span.stop
  tiles : Tiles tree.span.start tree.span.stop tree.children
  startCut : source.CutsAt tree.span.start
  stopCut : source.CutsAt tree.span.stop
  token : tree.lexeme ≠ "" → source.slice? tree.span = some tree.lexeme.toList
  opens : tree.lexeme = "" → ∀ first, tree.children.head? = some first →
    first.span.start = tree.span.start
  closes : tree.lexeme = "" → tree.kind ≠ .compilationUnit →
    ∀ last, tree.children.getLast? = some last → last.span.stop = tree.span.stop

theorem wellFormed_of_every {source : Text} {tree : Tree} (h : Every (LaidOut source) tree) :
    tree.WellFormed := by
  induction h with
  | intro here below ih =>
      exact .intro here.proper here.tiles.ordered (fun child hchild => (here.tiles.mem hchild).2.2) ih

/-- Only the label of a node tells it from its relabelled twin. -/
theorem Every.relabel {source : Text} {tree : Tree} (h : Every (LaidOut source) tree)
    (label : Option Label) : Every (LaidOut source) { tree with label } :=
  .intro ⟨h.here.proper, h.here.tiles, h.here.startCut, h.here.stopCut, h.here.token,
    h.here.opens, h.here.closes⟩ fun _ hchild => h.child hchild

/-- A leaf that lies on the source as its text does. -/
theorem every_leaf {source : Text} {kind : Kind} {span : Span} {lexeme : String}
    (hspan : span.start ≤ span.stop) (hstart : source.CutsAt span.start)
    (hstop : source.CutsAt span.stop)
    (htoken : lexeme ≠ "" → source.slice? span = some lexeme.toList) :
    Every (LaidOut source) (ofToken kind span lexeme) :=
  .intro ⟨hspan, hspan, hstart, hstop, htoken, fun _ first hfirst => absurd hfirst (by
      simp only [ofToken, List.head?_nil, reduceCtorEq, not_false_eq_true]), fun _ _ last hlast =>
    absurd hlast (by simp only [ofToken, List.getLast?_nil, reduceCtorEq, not_false_eq_true])⟩
    (by simp only [ofToken, List.not_mem_nil, false_implies, implies_true])

end Tree

/-! ### Cursors -/

namespace Cursor

/-- The cursor stands in the source, with the rest of the source before it. -/
def In (source : Text) (cursor : Cursor) : Prop :=
  ∃ before, source = before ++ cursor.rest ∧ Text.size before = cursor.offset

theorem in_ofText (source : Text) : (ofText source).In source :=
  ⟨[], rfl, rfl⟩

theorem In.cutsAt {source : Text} {cursor : Cursor} (h : cursor.In source) :
    source.CutsAt cursor.offset := by
  obtain ⟨before, hsource, hsize⟩ := h
  exact ⟨before, cursor.rest, hsource, hsize⟩

theorem In.advance {source : Text} {cursor : Cursor} (h : cursor.In source) (n : Nat) :
    (cursor.advance n).In source := by
  obtain ⟨before, hsource, hsize⟩ := h
  refine ⟨before ++ cursor.rest.take n, ?_, ?_⟩
  · simp only [Cursor.advance, List.append_assoc, List.take_append_drop, hsource]
  · simp only [Cursor.advance, Text.size_append, hsize]

theorem offset_le_advance (n : Nat) (cursor : Cursor) :
    cursor.offset ≤ (cursor.advance n).offset := by
  simp only [Cursor.advance, Nat.le_add_right]

/-- A text of at least one character takes at least one byte. -/
theorem size_take_pos {text : Text} {n : Nat} (htext : text ≠ []) (hn : n ≠ 0) :
    0 < Text.size (text.take n) := by
  cases text with
  | nil => exact absurd rfl htext
  | cons c cs =>
      cases n with
      | zero => exact absurd rfl hn
      | succ n =>
          have := Char.utf8Size_pos c
          simp only [List.take_succ_cons, Text.size_cons]
          omega

/-- A token of at least one character has a text. -/
theorem lexeme_ne_empty {text : Text} {n : Nat} (htext : text ≠ []) (hn : n ≠ 0) :
    String.ofList (text.take n) ≠ "" := by
  intro hempty
  have hlist := congrArg String.toList hempty
  rw [String.toList_ofList, String.toList_empty, List.take_eq_nil_iff] at hlist
  exact hlist.elim hn htext

/-- What `take` makes of the next characters lies between the two cursors. -/
theorem In.take {source : Text} {cursor behind : Cursor} {kind : Kind} {n : Nat} {tree : Tree}
    (h : cursor.In source) (hrest : cursor.rest ≠ []) (hn : n ≠ 0)
    (htake : cursor.take kind n = (tree, behind)) :
    behind.In source ∧ tree.span = ⟨cursor.offset, behind.offset⟩
      ∧ cursor.offset < behind.offset ∧ Tree.Every (Tree.LaidOut source) tree := by
  simp only [Cursor.take, Prod.mk.injEq] at htake
  obtain ⟨rfl, rfl⟩ := htake
  have hpos := size_take_pos hrest hn
  have hlt : cursor.offset < (cursor.advance n).offset := by
    simp only [Cursor.advance]
    omega
  refine ⟨h.advance n, rfl, hlt, Tree.every_leaf (Nat.le_of_lt hlt) h.cutsAt (h.advance n).cutsAt
    fun _ => ?_⟩
  obtain ⟨before, hsource, hsize⟩ := h
  refine Text.slice?_eq_some_iff.2 ⟨before, cursor.rest.drop n, ?_, hsize, ?_⟩
  · simp only [String.toList_ofList, List.append_assoc, List.take_append_drop, hsource]
  · simp only [String.toList_ofList, Cursor.advance]

end Cursor

/-! ### Gaps -/

namespace Gap

theorem commentLength_nil : commentLength [] = 0 := rfl

theorem holdsAt_append {source a b : Text} {offset : Nat} (h : source.HoldsAt offset (a ++ b)) :
    source.HoldsAt offset a ∧ source.HoldsAt (offset + a.size) b := by
  obtain ⟨before, after, rfl, rfl⟩ := h
  exact ⟨⟨before, b ++ after, by simp only [List.append_assoc], rfl⟩,
    ⟨before ++ a, after, by simp only [List.append_assoc], Text.size_append before a⟩⟩

/-- The words on a stretch of source stand in order on it. -/
theorem wordsFrom_laidOut {source : Text} (fuel : Nat) {offset : Nat} {text : Text}
    (h : source.HoldsAt offset text) :
    Tree.Tiles offset (offset + text.size) (wordsFrom fuel offset text)
      ∧ ∀ tree ∈ wordsFrom fuel offset text, Tree.Every (Tree.LaidOut source) tree := by
  induction fuel generalizing offset text with
  | zero => exact ⟨Nat.le_add_right _ _, by simp only [wordsFrom, List.not_mem_nil,
      false_implies, implies_true]⟩
  | succ fuel ih =>
      cases text with
      | nil => exact ⟨Nat.le_add_right _ _, by simp only [wordsFrom, List.not_mem_nil,
          false_implies, implies_true]⟩
      | cons c rest =>
          simp only [wordsFrom]
          generalize hn : (if commentLength (c :: rest) = 0 then
            Lexeme.identifierLength (c :: rest) else commentLength (c :: rest)) = n
          split
          · -- No word begins here, so the search goes on one character further.
            obtain ⟨-, hrest⟩ := holdsAt_append (a := [c]) h
            simp only [Text.size_cons, Text.size_nil, Nat.add_zero] at hrest
            obtain ⟨htiles, hlaid⟩ := ih hrest
            refine ⟨htiles.widen (Nat.le_add_right _ _) ?_, hlaid⟩
            simp only [Text.size_cons]
            omega
          · next hne =>
            have hsplit : (c :: rest).take n ++ (c :: rest).drop n = c :: rest :=
              List.take_append_drop n (c :: rest)
            have hsize : Text.size ((c :: rest).take n) + Text.size ((c :: rest).drop n)
                = Text.size (c :: rest) := by
              rw [← Text.size_append, hsplit]
            rw [← hsplit] at h
            obtain ⟨hword, hrest⟩ := holdsAt_append h
            obtain ⟨htiles, hlaid⟩ := ih hrest
            have hpos := Cursor.size_take_pos (List.cons_ne_nil c rest) hne
            refine ⟨⟨Nat.le_refl _, Nat.lt_add_of_pos_right hpos, htiles.widen (Nat.le_refl _) ?_⟩,
              fun tree hmem => ?_⟩
            · rw [← hsize]
              exact Nat.le_of_eq (by omega)
            · rcases List.mem_cons.1 hmem with rfl | hmem
              · exact Tree.every_leaf (Nat.le_add_right _ _) hword.cutsAt hword.cutsAt_stop
                  fun _ => by simpa only [String.toList_ofList] using hword.slice?
              · exact hlaid tree hmem

/-- The nodes inside a directive stand in order on it. -/
theorem directiveChildren_laidOut {source : Text} (kind : Kind) {offset : Nat} {text : Text}
    (h : source.HoldsAt offset text) :
    Tree.Tiles offset (offset + text.size) (directiveChildren kind offset text)
      ∧ ∀ tree ∈ directiveChildren kind offset text, Tree.Every (Tree.LaidOut source) tree := by
  have hnone : Tree.Tiles offset (offset + text.size) []
      ∧ ∀ tree ∈ ([] : List Tree), Tree.Every (Tree.LaidOut source) tree :=
    ⟨Nat.le_add_right _ _, by simp only [List.not_mem_nil, false_implies, implies_true]⟩
  simp only [directiveChildren]
  split
  · have hwords := wordsFrom_laidOut text.length h
    split
    · next first warning third words heq =>
      rw [heq] at hwords
      split
      · obtain ⟨⟨hfirst, hspan, hsecond, hspan', hthird, hspan'', htiles⟩, hlaid⟩ := hwords
        exact ⟨htiles.widen (by omega) (Nat.le_refl _), fun tree hmem =>
          hlaid tree (List.mem_cons_of_mem _ (List.mem_cons_of_mem _ (List.mem_cons_of_mem _ hmem)))⟩
      · exact hnone
    · exact hnone
  · exact hnone

/-- A directive is a hash and, behind blanks, the rest of a line, with one of the
    known words at its head. -/
theorem directive?_eq_some {text : Text} {kind : Kind} {n : Nat}
    (h : directive? text = some (kind, n)) :
    ∃ rest blanks word, text = '#' :: rest ∧ (word, kind) ∈ directives
      ∧ lineLength (rest.drop blanks) ≠ 0 ∧ n = 1 + blanks + lineLength (rest.drop blanks) := by
  unfold directive? at h
  split at h
  · next rest =>
    simp only at h
    split at h
    · exact absurd h (by simp only [reduceCtorEq, not_false_eq_true])
    · next word kind' hfind =>
      split at h
      · exact absurd h (by simp only [reduceCtorEq, not_false_eq_true])
      · next hne =>
        rw [Option.some.injEq, Prod.mk.injEq] at h
        obtain ⟨rfl, rfl⟩ := h
        exact ⟨rest, _, word, rfl, List.mem_of_find?_eq_some hfind, hne, rfl⟩
  · exact absurd h (by simp only [reduceCtorEq, not_false_eq_true])

/-- A directive has at least the character that begins it. -/
theorem length_directive?_ne_zero {text : Text} {kind : Kind} {n : Nat}
    (h : directive? text = some (kind, n)) : n ≠ 0 ∧ text ≠ [] := by
  obtain ⟨rest, blanks, word, rfl, -, -, rfl⟩ := directive?_eq_some h
  exact ⟨by omega, List.cons_ne_nil _ rest⟩

/-- A comment or directive lies between the cursors around it. -/
theorem extra?_laidOut {source : Text} {gap : Gap} {cursor behind : Cursor} {tree : Tree}
    (hcursor : cursor.In source) (h : gap.extra? cursor = some (tree, behind)) :
    behind.In source ∧ tree.span = ⟨cursor.offset, behind.offset⟩
      ∧ cursor.offset < behind.offset ∧ Tree.Every (Tree.LaidOut source) tree := by
  have hrest : ∀ n, commentLength cursor.rest = n → n ≠ 0 → cursor.rest ≠ [] := by
    intro n hn hne hnil
    rw [hnil, commentLength_nil] at hn
    exact hne hn.symm
  unfold extra? at h
  split at h
  · split at h
    · -- A directive is a token with nodes of its own inside.
      obtain ⟨⟨kind, n⟩, hdirective, htree⟩ := Option.map_eq_some_iff.1 h
      obtain ⟨hne, hnil⟩ := length_directive?_ne_zero hdirective
      simp only [Prod.mk.injEq] at htree
      obtain ⟨rfl, rfl⟩ := htree
      obtain ⟨hin, hspan, hlt, hlaid⟩ := hcursor.take hnil hne (rfl : cursor.take kind n = _)
      have hheld : source.HoldsAt cursor.offset (cursor.rest.take n) := by
        obtain ⟨before, hsource, hsize⟩ := hcursor
        exact ⟨before, cursor.rest.drop n, by
          rw [List.append_assoc, List.take_append_drop, hsource], hsize⟩
      obtain ⟨htiles, hchildren⟩ := directiveChildren_laidOut kind hheld
      exact ⟨hin, hspan, hlt, .intro ⟨hlaid.here.proper, htiles, hlaid.here.startCut,
        hlaid.here.stopCut, hlaid.here.token,
        fun hempty => absurd hempty (Cursor.lexeme_ne_empty hnil hne),
        fun hempty => absurd hempty (Cursor.lexeme_ne_empty hnil hne)⟩ hchildren⟩
    · exact absurd h (by simp only [reduceCtorEq, not_false_eq_true])
  · next hne =>
    simp only [Option.some.injEq] at h
    exact hcursor.take (hrest _ rfl hne) hne h

/-- The nodes of a gap stand in order between the cursors around it. -/
theorem skip_laidOut {source : Text} {gap : Gap} (fuel : Nat) {cursor after : Cursor}
    {trees : List Tree} (hcursor : cursor.In source) (h : gap.skip fuel cursor = (trees, after)) :
    after.In source ∧ Tree.Tiles cursor.offset after.offset trees
      ∧ ∀ tree ∈ trees, Tree.Every (Tree.LaidOut source) tree := by
  induction fuel generalizing cursor after trees with
  | zero =>
      simp only [skip, Prod.mk.injEq] at h
      obtain ⟨rfl, rfl⟩ := h
      exact ⟨hcursor, Nat.le_refl _, by simp only [List.not_mem_nil, false_implies, implies_true]⟩
  | succ fuel ih =>
      simp only [skip] at h
      split at h
      · simp only [Prod.mk.injEq] at h
        obtain ⟨rfl, rfl⟩ := h
        exact ⟨hcursor, Nat.le_refl _, by simp only [List.not_mem_nil, false_implies, implies_true]⟩
      · -- Blanks are passed, and then a comment or a directive is read.
        have hblank := hcursor.advance (Lexeme.run gap.holds cursor.rest)
        have hle := Cursor.offset_le_advance (Lexeme.run gap.holds cursor.rest) cursor
        split at h
        · simp only [Prod.mk.injEq] at h
          obtain ⟨rfl, rfl⟩ := h
          exact ⟨hblank, hle, by simp only [List.not_mem_nil, false_implies, implies_true]⟩
        · next tree behind hextra =>
          obtain ⟨hin, hspan, hlt, hlaid⟩ := extra?_laidOut hblank hextra
          generalize hskip : skip gap fuel behind = skipped at h
          obtain ⟨more, last⟩ := skipped
          simp only [Prod.mk.injEq] at h
          obtain ⟨rfl, rfl⟩ := h
          obtain ⟨hafter, htiles, hmore⟩ := ih hin hskip
          refine ⟨hafter, ⟨?_, ?_, ?_⟩, fun t hmem => ?_⟩
          · rw [hspan]; exact hle
          · rw [hspan]; exact hlt
          · rw [hspan]; exact htiles
          · rcases List.mem_cons.1 hmem with rfl | hmem
            · exact hlaid
            · exact hmore t hmem

end Gap

/-! ### Forms -/

namespace Form

/-- The check holds of the form and of every part of it that reads something.
    What is called is not looked into. -/
def everywhere (p : Form → Bool) : Form → Bool
  | seq first second => p (seq first second) && everywhere p first && everywhere p second
  | alt first second => p (alt first second) && everywhere p first && everywhere p second
  | many form => p (many form) && everywhere p form
  | node kind form => p (node kind form) && everywhere p form
  | label part form => p (label part form) && everywhere p form
  | grow base step => p (grow base step) && everywhere p base && everywhere p step
  | form => p form

/-- The first tree that the form reads, if any, is a node and no token. -/
def startsNode : Form → Bool
  | token .. => false
  | call _ => false
  | seq first second => startsNode first && startsNode second
  | alt first second => startsNode first && startsNode second
  | many form => startsNode form
  | label _ form => startsNode form
  | grow base step => startsNode base && startsNode step
  | _ => true

/-- What grows over a base is a node. -/
def growsNodes : Form → Bool
  | grow _ step => step.startsNode
  | _ => true

/-- The trees of `splitExtras` are those it was given. -/
theorem splitExtras_append (trees : List Tree) :
    (splitExtras trees).1 ++ (splitExtras trees).2 = trees := by
  induction trees with
  | nil => rfl
  | cons tree trees ih =>
      simp only [splitExtras]
      split
      · next extras heq =>
        rw [heq] at ih
        simp only [List.nil_append] at ih
        subst ih
        split <;> simp only [List.nil_append, List.cons_append]
      · next inner extras _ heq =>
        rw [heq] at ih
        simp only [List.cons_append, ih]

/-- What a node encloses, apart from the comments and directives behind it. -/
theorem enclose_eq_some {kind : Kind} {trees enclosed : List Tree}
    (h : enclose kind trees = some enclosed) :
    ∃ first inner last extras, trees = first :: inner ++ extras
      ∧ (first :: inner).getLast? = some last
      ∧ enclosed =
        ⟨kind, none, ⟨first.span.start, last.span.stop⟩, "", first :: inner⟩ :: extras := by
  have happend := splitExtras_append trees
  unfold enclose at h
  split at h
  · exact absurd h (by simp only [reduceCtorEq, not_false_eq_true])
  · next first inner extras heq =>
    rw [heq] at happend
    simp only [Option.some.injEq] at h
    refine ⟨first, inner, (first :: inner).getLastD first, extras, happend.symm, ?_, h.symm⟩
    rw [List.getLastD_eq_getLast?, List.getLast?_eq_some_getLast (List.cons_ne_nil first inner),
      Option.getD_some]

end Form

namespace Grammar

/-- The check holds of every part of every form of the grammar. -/
def Everywhere (p : Form → Bool) (grammar : Grammar) : Prop :=
  ∀ phrase, (grammar phrase).everywhere p = true

variable {grammar : Grammar}

/-- A form that starts with a node reads a node first, which has children. -/
theorem Reads.starts_node {form : Form} {cursor after : Cursor} {trees : List Tree}
    (h : Reads grammar form cursor trees after) (hform : form.startsNode = true) {tree : Tree}
    (htree : trees.head? = some tree) : tree.lexeme = "" ∧ tree.children ≠ [] := by
  have none_eq_some {t : Tree} : ¬ (List.head? ([] : List Tree) = some t) := by
    simp only [List.head?_nil, reduceCtorEq, not_false_eq_true]
  induction h generalizing tree with
  | nothing | ahead | «unless» | glued | manyNone => exact absurd htree none_eq_some
  | token fits take skip => exact absurd hform (by simp only [Form.startsNode,
      Bool.false_eq_true, not_false_eq_true])
  | call read ih => exact absurd hform (by simp only [Form.startsNode,
      Bool.false_eq_true, not_false_eq_true])
  | seq head tail ihHead ihTail =>
      simp only [Form.startsNode, Bool.and_eq_true] at hform
      rw [List.head?_append, Option.or_eq_some_iff] at htree
      rcases htree with htree | ⟨-, htree⟩
      · exact ihHead hform.1 htree
      · exact ihTail hform.2 htree
  | altFirst read ih =>
      simp only [Form.startsNode, Bool.and_eq_true] at hform
      exact ih hform.1 htree
  | altSecond read ih =>
      simp only [Form.startsNode, Bool.and_eq_true] at hform
      exact ih hform.2 htree
  | manyMore head tail ihHead ihTail =>
      rw [List.head?_append, Option.or_eq_some_iff] at htree
      rcases htree with htree | ⟨-, htree⟩
      · exact ihHead hform htree
      · exact ihTail hform htree
  | node read encloses ih =>
      obtain ⟨first, inner, last, extras, -, -, rfl⟩ := Form.enclose_eq_some encloses
      rw [← Option.some.inj htree]
      exact ⟨rfl, List.cons_ne_nil first inner⟩
  | @label part form cursor after trees read ih =>
      cases trees with
      | nil => exact absurd htree none_eq_some
      | cons first rest =>
          rw [← Option.some.inj htree]
          have hstarts := ih hform (rfl : (first :: rest).head? = some first)
          exact hstarts
  | growBase read ih =>
      simp only [Form.startsNode, Bool.and_eq_true] at hform
      exact ih hform.1 htree
  | @growStep base step cursor middle after trees grown head tail ihHead ihTail =>
      simp only [Form.startsNode, Bool.and_eq_true] at hform
      cases trees with
      | nil => exact absurd htree none_eq_some
      | cons first rest =>
          -- The base is below the node that grows over it.
          cases grown with
          | nil => exact ihHead (by simp only [Form.startsNode, Bool.and_eq_true, hform,
              and_self]) htree
          | cons grownOn extras =>
              rw [← Option.some.inj htree]
              exact ⟨(ihTail hform.2 (rfl : (grownOn :: extras).head? = some grownOn)).1,
                List.cons_ne_nil _ _⟩

/-- The trees stand in order between two cursors of the source, each laid out
    on it. -/
structure Between (source : Text) (cursor : Cursor) (trees : List Tree) (after : Cursor) :
    Prop where
  inside : after.In source
  tiles : Tree.Tiles cursor.offset after.offset trees
  laidOut : ∀ tree ∈ trees, Tree.Every (Tree.LaidOut source) tree

namespace Between

variable {source : Text} {cursor middle after : Cursor} {trees more : List Tree}

theorem nil (h : cursor.In source) : Between source cursor [] cursor :=
  ⟨h, Nat.le_refl _, by simp only [List.not_mem_nil, false_implies, implies_true]⟩

theorem append (h : Between source cursor trees middle) (hmore : Between source middle more after) :
    Between source cursor (trees ++ more) after :=
  ⟨hmore.inside, Tree.tiles_append.2 ⟨_, h.tiles, hmore.tiles⟩, fun tree hmem =>
    (List.mem_append.1 hmem).elim (h.laidOut tree) (hmore.laidOut tree)⟩

/-- A node over the first of the trees stands where they stood. -/
theorem enclose {kind : Kind} {enclosed : List Tree} (h : Between source cursor trees after)
    (henclose : Form.enclose kind trees = some enclosed) : Between source cursor enclosed after := by
  obtain ⟨first, inner, last, extras, rfl, hlast, rfl⟩ := Form.enclose_eq_some henclose
  obtain ⟨middle, htiles, hextras⟩ := Tree.tiles_append.1 h.tiles
  have hmem : last ∈ first :: inner := List.mem_of_getLast? hlast
  have hinner := htiles.trim hlast
  have hfirst := (h.laidOut first (List.mem_append_left _ List.mem_cons_self)).here
  have hlaidLast := (h.laidOut last (List.mem_append_left _ hmem)).here
  -- The node reaches from the first of its children to the last, and the extras follow it.
  have hspan : first.span.start < last.span.stop := by
    have := hinner.mem hmem
    omega
  refine ⟨h.inside, ⟨htiles.1, hspan, hextras.widen (htiles.mem hmem).2.2 (Nat.le_refl _)⟩,
    fun tree htree => ?_⟩
  · rcases List.mem_cons.1 htree with rfl | htree
    · exact .intro ⟨hinner.le, hinner, hfirst.startCut, hlaidLast.stopCut,
        fun hne => absurd rfl hne, fun _ child hchild => by rw [← Option.some.inj hchild],
        fun _ _ child hchild => by rw [← Option.some.inj (hlast.symm.trans hchild)]⟩
        fun child hchild => h.laidOut child (List.mem_append_left _ hchild)
    · exact h.laidOut tree (List.mem_append_right _ htree)

/-- The first of the trees may get another label. -/
theorem relabel {part : Label} (h : Between source cursor trees after) :
    Between source cursor (Form.relabel part trees) after := by
  cases trees with
  | nil => exact h
  | cons first rest =>
      refine ⟨h.inside, h.tiles, fun tree hmem => ?_⟩
      rcases List.mem_cons.1 hmem with rfl | hmem
      · exact (h.laidOut first List.mem_cons_self).relabel (some part)
      · exact h.laidOut tree (List.mem_cons_of_mem _ hmem)

/-- What grows over trees stands where they stood and it stood. -/
theorem adopt {grown : List Tree} (h : Between source cursor trees middle)
    (hgrown : Between source middle grown after)
    (hnode : ∀ tree, grown.head? = some tree → tree.lexeme = "" ∧ tree.children ≠ []) :
    Between source cursor (Form.adopt trees grown) after := by
  cases trees with
  | nil => exact ⟨hgrown.inside, Nat.le_trans h.tiles.le hgrown.tiles.le, h.laidOut⟩
  | cons first rest =>
      cases grown with
      | nil => exact ⟨hgrown.inside, h.tiles.widen (Nat.le_refl _) hgrown.tiles.le, h.laidOut⟩
      | cons grownOn extras =>
          have hfirst := h.laidOut first List.mem_cons_self
          have hon := hgrown.laidOut grownOn List.mem_cons_self
          obtain ⟨hstart, hspan, hrest⟩ := h.tiles
          obtain ⟨hstart', hspan', hextras⟩ := hgrown.tiles
          have hle := hrest.le
          -- The base, what follows it, and the children of what grows on it.
          have hchildren : Tree.Tiles first.span.start grownOn.span.stop
              ({ first with label := Form.grownLabel grownOn.kind } :: rest
                ++ grownOn.children) :=
            ⟨Nat.le_refl _, hspan, Tree.tiles_append.2
              ⟨middle.offset, hrest, hon.here.tiles.widen hstart' (Nat.le_refl _)⟩⟩
          refine ⟨hgrown.inside, ⟨hstart, ?_, hextras⟩, fun tree hmem => ?_⟩
          · change first.span.start < grownOn.span.stop
            omega
          · rcases List.mem_cons.1 hmem with rfl | hmem
            · refine .intro ⟨hchildren.le, hchildren, hfirst.here.startCut, hon.here.stopCut,
                fun hne => absurd (hnode grownOn rfl).1 hne, fun _ child hchild => by
                  rw [← Option.some.inj hchild], fun hempty hkind child hchild => ?_⟩
                fun child hchild => ?_
              · rw [List.getLast?_append, List.getLast?_eq_some_getLast (hnode grownOn rfl).2,
                  Option.some_or, ← List.getLast?_eq_some_getLast (hnode grownOn rfl).2] at hchild
                exact hon.here.closes hempty hkind child hchild
              rcases List.mem_append.1 hchild with hchild | hchild
              · rcases List.mem_cons.1 hchild with rfl | hchild
                · exact hfirst.relabel _
                · exact h.laidOut child (List.mem_cons_of_mem _ hchild)
              · exact hon.child hchild
            · exact hgrown.laidOut tree (List.mem_cons_of_mem _ hmem)

end Between

/-- No class of tokens fits where nothing is left to read. -/
theorem length_nil (lexeme : Lexeme) : lexeme.length [] = 0 := by
  cases lexeme with
  | mark sign unlike => cases sign <;> rfl
  | word letters => cases letters <;> rfl
  | filling quoting => cases quoting <;> rfl
  | directive letters => rfl
  | _ => rfl

/-- What a form reads is laid out on the source between the cursors. -/
theorem Reads.laidOut {source : Text} (hgrammar : grammar.Everywhere Form.growsNodes)
    {form : Form} {cursor after : Cursor} {trees : List Tree}
    (h : Reads grammar form cursor trees after) (hform : form.everywhere Form.growsNodes = true)
    (hcursor : cursor.In source) : Between source cursor trees after := by
  -- Each form goes on at the cursor where the one before it stopped.
  induction h with
  | nothing | ahead | «unless» | glued | manyNone => exact .nil hcursor
  | @token kind lexeme gap limit cursor behind after tree extras fits take skip =>
      have hrest : cursor.rest ≠ [] := fun hnil => fits (by rw [hnil, length_nil])
      obtain ⟨hin, hspan, hlt, hlaid⟩ := hcursor.take hrest fits take
      obtain ⟨hafter, htiles, hextras⟩ :=
        Gap.skip_laidOut limit (show Cursor.In source { behind with stop := behind.offset } from hin)
          skip
      refine ⟨hafter, ⟨?_, ?_, ?_⟩, fun t hmem => ?_⟩
      · exact Nat.le_of_eq (by rw [hspan])
      · rw [hspan]; exact hlt
      · rw [hspan]; exact htiles
      · rcases List.mem_cons.1 hmem with rfl | hmem
        · exact hlaid
        · exact hextras t hmem
  | seq head tail ihHead ihTail =>
      simp only [Form.everywhere, Bool.and_eq_true] at hform
      have hmiddle := ihHead hform.1.2 hcursor
      exact hmiddle.append (ihTail hform.2 hmiddle.inside)
  | altFirst read ih =>
      simp only [Form.everywhere, Bool.and_eq_true] at hform
      exact ih hform.1.2 hcursor
  | altSecond read ih =>
      simp only [Form.everywhere, Bool.and_eq_true] at hform
      exact ih hform.2 hcursor
  | manyMore head tail ihHead ihTail =>
      have hbody := hform
      simp only [Form.everywhere, Bool.and_eq_true] at hbody
      have hmiddle := ihHead hbody.2 hcursor
      exact hmiddle.append (ihTail hform hmiddle.inside)
  | node read encloses ih =>
      simp only [Form.everywhere, Bool.and_eq_true] at hform
      exact (ih hform.2 hcursor).enclose encloses
  | label read ih =>
      simp only [Form.everywhere, Bool.and_eq_true] at hform
      exact (ih hform.2 hcursor).relabel
  | call read ih => exact ih (hgrammar _) hcursor
  | growBase read ih =>
      simp only [Form.everywhere, Bool.and_eq_true] at hform
      exact ih hform.1.2 hcursor
  | growStep head tail ihHead ihTail =>
      have hparts := hform
      simp only [Form.everywhere, Bool.and_eq_true] at hparts
      have hmiddle := ihHead hform hcursor
      exact hmiddle.adopt (ihTail hparts.2 hmiddle.inside)
        fun tree htree => tail.starts_node hparts.1.1 htree

end Grammar

end SharpLint

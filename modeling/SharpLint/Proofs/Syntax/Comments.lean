import SharpLint.Proofs.Syntax.Place

/-!
# Comments to the End of a Line

A comment that begins with two slashes is read up to the end of its line. So it
holds no line break, and what stands behind it in the source, if anything does,
is one. That holds of the comments between tokens and of those inside a
directive, which ends with a line feed of its own.

Nothing in the tree says this, for the tree has no trace of the blanks: it is
told from how the source is read.

## Main definitions

* `Text.breaksLine`: the characters before which such a comment stops.
* `Tree.RunsOut`: a comment is read as a whole, and such a comment runs to the
  end of its line.

## Theorems

* `Gap.commentLength_spec`: How far a comment is read.
* `Gap.commentLength_take`: What is read as a comment is one for itself.
* `Grammar.Reads.runsOut`: Reading a form finds such comments only.
* `Document.parse_runsOut`: The comments of a parsed document run out.
* `Document.Has.commentLength`, `Document.Has.head?_comment`: How a comment
  reads, and how it begins.
* `Document.Has.runsOut`: What stands behind a comment.
-/

namespace SharpLint

/-- Whether the character breaks a line. -/
def Text.breaksLine (c : Char) : Bool :=
  c == '\n' || c == '\r'

open Text

namespace Lexeme

theorem take_run (p : Char → Bool) (text : Text) : text.take (run p text) = text.takeWhile p := by
  induction text with
  | nil => rfl
  | cons c text ih =>
      rw [run, List.takeWhile_cons]
      split
      · rw [List.take_succ_cons, ih]
      · rfl

theorem drop_run (p : Char → Bool) (text : Text) : text.drop (run p text) = text.dropWhile p := by
  induction text with
  | nil => rfl
  | cons c text ih =>
      rw [run, List.dropWhile_cons]
      split
      · rw [List.drop_succ_cons, ih]
      · rfl

theorem run_takeWhile (p : Char → Bool) (text : Text) :
    run p (text.takeWhile p) = (text.takeWhile p).length := by
  induction text with
  | nil => rfl
  | cons c text ih =>
      rw [List.takeWhile_cons]
      split
      · next hc => rw [run, if_pos hc, ih, List.length_cons]
      · rfl

end Lexeme

/-- A comment is one for itself, as a whole. One from two slashes on holds no
    line break and stands before one, or at the end of the source. -/
def Tree.RunsOut (source : Text) (tree : Tree) : Prop :=
  tree.kind = .comment → tree.lexeme ≠ "" →
    Gap.commentLength tree.lexeme.toList = tree.lexeme.toList.length
      ∧ (startsWith tree.lexeme.toList ['/', '/'] = true →
        (∀ c ∈ tree.lexeme.toList, breaksLine c = false)
          ∧ ∃ before behind, source = before ++ tree.lexeme.toList ++ behind
            ∧ size before = tree.span.start ∧ ∀ c, behind.head? = some c → breaksLine c = true)

theorem Tree.runsOut_of_lexeme {source : Text} {tree : Tree} (h : tree.lexeme = "") :
    tree.RunsOut source :=
  fun _ hne => absurd h hne

theorem Tree.RunsOut.relabel {source : Text} {tree : Tree} (h : tree.Every (RunsOut source))
    (label : Option Label) : Every (RunsOut source) { tree with label } :=
  .intro h.here fun _ hchild => h.child hchild

namespace Gap

/-- A comment from two slashes on is read up to a line break. -/
theorem commentLength_spec {text : Text}
    (h : startsWith (text.take (commentLength text)) ['/', '/'] = true) :
    (∀ c ∈ text.take (commentLength text), breaksLine c = false)
      ∧ ∀ c, (text.drop (commentLength text)).head? = some c → breaksLine c = true := by
  have hstop : (fun c => c != '\n' && c != '\r') = fun c => !breaksLine c := by
    funext c
    rw [breaksLine, Bool.not_or]
    rfl
  unfold commentLength at h ⊢
  split at h
  · next rest =>
    simp only [List.take_succ_cons, List.drop_succ_cons, hstop, Lexeme.take_run, Lexeme.drop_run]
    refine ⟨fun c hc => ?_, fun c hc => ?_⟩
    · rcases List.mem_cons.1 hc with rfl | hc
      · rfl
      rcases List.mem_cons.1 hc with rfl | hc
      · rfl
      have hall := List.all_eq_true.1 List.all_takeWhile c hc
      simpa only [Bool.not_eq_true'] using hall
    · have hhead := List.head?_dropWhile_not (fun c => !breaksLine c) rest
      rw [hc] at hhead
      simpa only [Bool.not_eq_false', Bool.not_eq_true', Bool.not_eq_false] using hhead
  · next rest =>
    -- A comment of the other kind has a star for its second character.
    cases hrest : blockCommentRest rest with
    | none =>
        rw [hrest] at h
        exact absurd h Bool.false_ne_true
    | some n =>
        rw [hrest] at h
        exact absurd h Bool.false_ne_true
  · rw [List.take_zero] at h
    exact absurd h Bool.false_ne_true

/-- A block comment is read to its first end, whatever stands behind that. -/
theorem blockCommentRest_append {text : Text} {n : Nat} (h : blockCommentRest text = some n)
    (behind : Text) :
    blockCommentRest (text.take n ++ behind) = some n ∧ 0 < n ∧ n ≤ text.length := by
  fun_induction blockCommentRest text generalizing n with
  | case1 rest =>
      obtain rfl := Option.some.inj h
      exact ⟨rfl, by decide, Nat.le_add_left _ _⟩
  | case2 c rest hends ih =>
      obtain ⟨m, hm, rfl⟩ := Option.map_eq_some_iff.1 h
      obtain ⟨hrest, hpos, hle⟩ := ih hm
      refine ⟨?_, Nat.succ_pos m, Nat.succ_le_succ hle⟩
      rw [List.take_succ_cons, List.cons_append, blockCommentRest, hrest, Option.map_some]
      rintro more rfl hmore
      -- The end would have been read before.
      obtain ⟨d, rest, rfl⟩ := List.exists_cons_of_length_pos (Nat.lt_of_lt_of_le hpos hle)
      obtain ⟨k, rfl⟩ := Nat.exists_eq_add_one_of_ne_zero (Nat.ne_of_gt hpos)
      rw [List.take_succ_cons, List.cons_append, List.cons.injEq] at hmore
      exact hends rest rfl (by rw [hmore.1])
  | case3 => exact absurd h (by simp only [reduceCtorEq, not_false_eq_true])

/-- What is read as a comment is a comment for itself, as a whole. -/
theorem commentLength_take (text : Text) :
    commentLength (text.take (commentLength text)) = (text.take (commentLength text)).length := by
  fun_cases commentLength text with
  | case1 rest =>
      simp only [List.take_succ_cons, Lexeme.take_run, List.length_cons]
      exact congrArg (· + 2) (Lexeme.run_takeWhile _ rest)
  | case2 rest =>
      cases hrest : blockCommentRest rest with
      | none => rfl
      | some n =>
          obtain ⟨htake, -, hle⟩ := blockCommentRest_append hrest []
          rw [List.append_nil] at htake
          simp only [Option.map_some, Option.getD_some, List.take_succ_cons, List.length_cons,
            List.length_take, Nat.min_eq_left hle]
          change ((blockCommentRest (rest.take n)).map (· + 2)).getD 0 = n + 2
          rw [htake, Option.map_some, Option.getD_some]
  | case3 => rfl

/-- A comment begins with a slash. -/
theorem head?_comment {text : Text} (h : commentLength text = text.length) (hne : text ≠ []) :
    text.head? = some '/' := by
  revert h
  fun_cases commentLength text with
  | case1 rest => exact fun _ => rfl
  | case2 rest => exact fun _ => rfl
  | case3 => exact fun h => absurd (List.eq_nil_of_length_eq_zero h.symm) hne

/-- A comment that is taken at a cursor runs out. -/
theorem runsOut_take {source : Text} {cursor behind : Cursor} {tree : Tree}
    (hcursor : cursor.In source)
    (h : cursor.take .comment (commentLength cursor.rest) = (tree, behind)) :
    tree.Every (Tree.RunsOut source) := by
  simp only [Cursor.take, Tree.ofToken, Prod.mk.injEq] at h
  obtain ⟨rfl, -⟩ := h
  refine .intro (fun _ _ => ?_)
    (by simp only [List.not_mem_nil, false_implies, implies_true])
  simp only [String.toList_ofList]
  refine ⟨commentLength_take cursor.rest, fun hstarts => ?_⟩
  obtain ⟨hline, hbehind⟩ := commentLength_spec hstarts
  obtain ⟨before, hsource, hsize⟩ := hcursor
  refine ⟨hline, before, cursor.rest.drop (commentLength cursor.rest), ?_, hsize, hbehind⟩
  rw [List.append_assoc, List.take_append_drop, hsource]

/-- The comments among the words on a stretch of source that ends with a line
    feed run out. -/
theorem runsOut_wordsFrom {source : Text} (fuel : Nat) {offset : Nat} {text : Text}
    (h : source.HoldsAt offset text) (hlast : ∀ c, text.getLast? = some c → c = '\n') :
    ∀ tree ∈ wordsFrom fuel offset text, tree.Every (Tree.RunsOut source) := by
  induction fuel generalizing offset text with
  | zero => simp only [wordsFrom, List.not_mem_nil, false_implies, implies_true]
  | succ fuel ih =>
      cases text with
      | nil => simp only [wordsFrom, List.not_mem_nil, false_implies, implies_true]
      | cons c rest =>
          have hdrop (n : Nat) (d : Char) (hd : ((c :: rest).drop n).getLast? = some d) :
              d = '\n' := by
            rw [List.getLast?_drop] at hd
            split at hd
            · exact absurd hd (by simp only [reduceCtorEq, not_false_eq_true])
            · exact hlast d hd
          have hholds (n : Nat) :
              source.HoldsAt (offset + size ((c :: rest).take n)) ((c :: rest).drop n) := by
            have hsplit := h
            rw [← List.take_append_drop n (c :: rest)] at hsplit
            exact (holdsAt_append hsplit).2
          intro tree hmem
          simp only [wordsFrom] at hmem
          generalize hn : (if commentLength (c :: rest) = 0 then
            Lexeme.identifierLength (c :: rest) else commentLength (c :: rest)) = n at hmem
          split at hmem
          · exact ih (hholds 1) (hdrop 1) tree hmem
          rcases List.mem_cons.1 hmem with rfl | hmem
          rotate_left
          · exact ih (hholds n) (hdrop n) tree hmem
          refine .intro (fun hkind _ => ?_)
            (by simp only [Tree.ofToken, List.not_mem_nil, false_implies, implies_true])
          have hcomment : commentLength (c :: rest) = n := by
            by_cases hzero : commentLength (c :: rest) = 0
            · rw [if_pos hzero] at hkind
              exact absurd hkind (show ¬Kind.identifier = .comment by decide)
            · rw [← hn, if_neg hzero]
          simp only [Tree.ofToken, String.toList_ofList]
          rw [← hcomment]
          refine ⟨commentLength_take (c :: rest), fun hstarts => ?_⟩
          obtain ⟨hline, hbehind⟩ := commentLength_spec hstarts
          obtain ⟨before, after, hsource, hsize⟩ := h
          refine ⟨hline, before, (c :: rest).drop (commentLength (c :: rest)) ++ after, ?_, hsize,
            fun d hd => ?_⟩
          · rw [← List.append_assoc, List.append_assoc before, List.take_append_drop, hsource]
          · cases hmore : (c :: rest).drop (commentLength (c :: rest)) with
            | cons e more =>
                rw [hmore] at hd hbehind
                exact hbehind d hd
            | nil =>
                -- The comment would hold the line feed at the end.
                have hwhole := List.take_append_drop (commentLength (c :: rest)) (c :: rest)
                rw [hmore, List.append_nil] at hwhole
                rw [hwhole] at hline
                have hmem := List.getLast_mem (List.cons_ne_nil c rest)
                have hfeed := hlast _ (List.getLast?_eq_some_getLast (List.cons_ne_nil c rest))
                rw [hfeed] at hmem
                exact absurd (hline _ hmem) (by decide)

/-- A directive ends with a line feed. -/
theorem getLast?_directive {text : Text} {kind : Kind} {n : Nat}
    (h : directive? text = some (kind, n)) : (text.take n).getLast? = some '\n' := by
  obtain ⟨rest, blanks, word, rfl, -, hne, rfl⟩ := directive?_eq_some h
  -- The line is a run of other characters and the line feed.
  generalize hlength : lineLength (rest.drop blanks) = length at hne ⊢
  rw [lineLength] at hlength
  split at hlength
  rotate_left
  · exact absurd hlength.symm hne
  next hfeed =>
  generalize Lexeme.run (· != '\n') (rest.drop blanks) = run at hfeed hlength
  have hget : (rest.drop blanks)[run]? = some '\n' := by
    rw [← List.head?_drop]
    cases hrest : (rest.drop blanks).drop run with
    | nil =>
        rw [hrest] at hfeed
        exact absurd hfeed Bool.false_ne_true
    | cons c more =>
        rw [hrest] at hfeed
        rw [List.head?_cons, Option.some.injEq]
        exact beq_iff_eq.1 hfeed
  rw [List.getElem?_drop] at hget
  rw [List.getLast?_take, if_neg (by omega), show 1 + blanks + length - 1 = blanks + run + 1 by omega,
    List.getElem?_cons_succ, hget, Option.some_or]

/-- The comments in a gap run out. -/
theorem runsOut_extra? {source : Text} {gap : Gap} {cursor behind : Cursor} {tree : Tree}
    (hcursor : cursor.In source) (h : gap.extra? cursor = some (tree, behind)) :
    tree.Every (Tree.RunsOut source) := by
  unfold extra? at h
  split at h
  · split at h
    · obtain ⟨⟨kind, n⟩, hdirective, htree⟩ := Option.map_eq_some_iff.1 h
      simp only [Cursor.take, Tree.ofToken, Prod.mk.injEq] at htree
      obtain ⟨rfl, -⟩ := htree
      refine .intro (fun hkind _ => ?_) fun child hchild => ?_
      · -- A directive is no comment.
        have hnot : ∀ entry ∈ directives, entry.2 ≠ .comment := by decide
        obtain ⟨rest, blanks, word, -, hentry, -⟩ := directive?_eq_some hdirective
        exact absurd hkind (hnot _ hentry)
      · simp only [directiveChildren] at hchild
        split at hchild
        rotate_left
        · exact absurd hchild List.not_mem_nil
        obtain ⟨before, hsource, hsize⟩ := hcursor
        have hheld : source.HoldsAt cursor.offset (cursor.rest.take n) :=
          ⟨before, cursor.rest.drop n, by
            rw [List.append_assoc, List.take_append_drop, hsource], hsize⟩
        have hwords := runsOut_wordsFrom (cursor.rest.take n).length hheld fun c hc => by
          rw [getLast?_directive hdirective, Option.some.injEq] at hc
          exact hc.symm
        split at hchild
        · next first warning third words heq =>
          rw [heq] at hwords
          split at hchild
          · exact hwords child (List.mem_cons_of_mem _ (List.mem_cons_of_mem _
              (List.mem_cons_of_mem _ hchild)))
          · exact absurd hchild List.not_mem_nil
        · exact absurd hchild List.not_mem_nil
    · exact absurd h (by simp only [reduceCtorEq, not_false_eq_true])
  · simp only [Option.some.injEq] at h
    exact runsOut_take hcursor h

theorem runsOut_skip {source : Text} {gap : Gap} (fuel : Nat) {cursor after : Cursor}
    {trees : List Tree} (hcursor : cursor.In source) (h : gap.skip fuel cursor = (trees, after)) :
    ∀ tree ∈ trees, tree.Every (Tree.RunsOut source) := by
  induction fuel generalizing cursor after trees with
  | zero =>
      simp only [skip, Prod.mk.injEq] at h
      rw [← h.1]
      simp only [List.not_mem_nil, false_implies, implies_true]
  | succ fuel ih =>
      simp only [skip] at h
      split at h
      · rw [Prod.mk.injEq] at h
        rw [← h.1]
        simp only [List.not_mem_nil, false_implies, implies_true]
      · have hblank := hcursor.advance (Lexeme.run gap.holds cursor.rest)
        split at h
        · rw [Prod.mk.injEq] at h
          rw [← h.1]
          simp only [List.not_mem_nil, false_implies, implies_true]
        · next tree behind hextra =>
          obtain ⟨hin, -, -, -⟩ := extra?_laidOut hblank hextra
          generalize hskip : skip gap fuel behind = skipped at h
          obtain ⟨more, last⟩ := skipped
          rw [Prod.mk.injEq] at h
          rw [← h.1]
          intro other hmem
          rcases List.mem_cons.1 hmem with rfl | hmem
          · exact runsOut_extra? hblank hextra
          · exact ih hin hskip other hmem

end Gap

/-! ### Readings -/

/-- Whether the form, where it reads a token, reads no comment. -/
def Form.readsNoComment : Form → Bool
  | .token kind _ _ => kind != .comment
  | _ => true

namespace Grammar

variable {grammar : Grammar}

/-- Reading a form finds comments in gaps only, where they run out. -/
theorem Reads.runsOut {source : Text} (hgrows : grammar.Everywhere Form.growsNodes)
    (htokens : grammar.Everywhere Form.readsNoComment) {form : Form} {cursor after : Cursor}
    {trees : List Tree} (h : Reads grammar form cursor trees after)
    (hformGrows : form.everywhere Form.growsNodes = true)
    (hform : form.everywhere Form.readsNoComment = true) (hcursor : cursor.In source) :
    ∀ tree ∈ trees, tree.Every (Tree.RunsOut source) := by
  induction h with
  | nothing | ahead | «unless» | glued | manyNone =>
      simp only [List.not_mem_nil, false_implies, implies_true]
  | @token kind lexeme gap limit cursor behind after tree extras fits take skip =>
      have hrest : cursor.rest ≠ [] := fun hnil => fits (by rw [hnil, length_nil])
      obtain ⟨hin, -⟩ := hcursor.take hrest fits take
      intro other hmem
      rcases List.mem_cons.1 hmem with rfl | hmem
      · simp only [Form.everywhere, Form.readsNoComment, bne_iff_ne] at hform
        simp only [Cursor.take, Tree.ofToken, Prod.mk.injEq] at take
        rw [← take.1]
        exact .intro (fun hkind => absurd hkind hform)
          (by simp only [List.not_mem_nil, false_implies, implies_true])
      · exact Gap.runsOut_skip limit
          (show Cursor.In source { behind with stop := behind.offset } from hin) skip other hmem
  | seq head tail ihHead ihTail =>
      simp only [Form.everywhere, Bool.and_eq_true] at hformGrows hform
      have hmiddle := (head.laidOut hgrows hformGrows.1.2 hcursor).inside
      intro tree hmem
      exact (List.mem_append.1 hmem).elim (ihHead hformGrows.1.2 hform.1.2 hcursor tree)
        (ihTail hformGrows.2 hform.2 hmiddle tree)
  | altFirst read ih =>
      simp only [Form.everywhere, Bool.and_eq_true] at hformGrows hform
      exact ih hformGrows.1.2 hform.1.2 hcursor
  | altSecond read ih =>
      simp only [Form.everywhere, Bool.and_eq_true] at hformGrows hform
      exact ih hformGrows.2 hform.2 hcursor
  | manyMore head tail ihHead ihTail =>
      have hbodyGrows := hformGrows
      have hbody := hform
      simp only [Form.everywhere, Bool.and_eq_true] at hbodyGrows hbody
      have hmiddle := (head.laidOut hgrows hbodyGrows.2 hcursor).inside
      intro tree hmem
      exact (List.mem_append.1 hmem).elim (ihHead hbodyGrows.2 hbody.2 hcursor tree)
        (ihTail hformGrows hform hmiddle tree)
  | node read encloses ih =>
      simp only [Form.everywhere, Bool.and_eq_true] at hformGrows hform
      have hread := ih hformGrows.2 hform.2 hcursor
      obtain ⟨first, inner, last, extras, htrees, -, rfl⟩ := Form.enclose_eq_some encloses
      intro tree hmem
      rcases List.mem_cons.1 hmem with rfl | hmem
      · exact .intro (Tree.runsOut_of_lexeme rfl) fun child hchild =>
          hread child (htrees ▸ List.mem_append_left _ hchild)
      · exact hread tree (htrees ▸ List.mem_append_right _ hmem)
  | @label part form cursor after trees read ih =>
      simp only [Form.everywhere, Bool.and_eq_true] at hformGrows hform
      have hread := ih hformGrows.2 hform.2 hcursor
      cases trees with
      | nil => simp only [Form.relabel, List.not_mem_nil, false_implies, implies_true]
      | cons first rest =>
          intro tree hmem
          rcases List.mem_cons.1 hmem with rfl | hmem
          · exact Tree.RunsOut.relabel (hread first List.mem_cons_self) _
          · exact hread tree (List.mem_cons_of_mem _ hmem)
  | call read ih => exact ih (hgrows _) (htokens _) hcursor
  | growBase read ih =>
      simp only [Form.everywhere, Bool.and_eq_true] at hformGrows hform
      exact ih hformGrows.1.2 hform.1.2 hcursor
  | growStep head tail ihHead ihTail =>
      have hpartsGrow := hformGrows
      have hparts := hform
      simp only [Form.everywhere, Bool.and_eq_true] at hpartsGrow hparts
      have hmiddle := (head.laidOut hgrows hformGrows hcursor).inside
      have hbase := ihHead hformGrows hform hcursor
      have hgrown := ihTail hpartsGrow.2 hparts.2 hmiddle
      -- What grows over a base is a node, and so no comment.
      refine forall_adopt hbase hgrown fun first rest node extras hfirst hstep => ?_
      subst hfirst hstep
      have hnode := tail.starts_node hpartsGrow.1.1 (rfl : (node :: extras).head? = some node)
      exact .intro (Tree.runsOut_of_lexeme hnode.1) (forall_withBase
        (Tree.RunsOut.relabel (hbase first List.mem_cons_self) _)
        (fun child hchild => hbase child (List.mem_cons_of_mem _ hchild))
        fun _ hchild => (hgrown node List.mem_cons_self).child hchild)

set_option maxRecDepth 100000 in
theorem readsNoComment_phrases :
    (phrases.all fun phrase => (csharp phrase).everywhere Form.readsNoComment) = true := by
  decide +kernel

theorem readsNoComment_csharp : csharp.Everywhere Form.readsNoComment :=
  forall_csharp (fun _ form => form.everywhere Form.readsNoComment) readsNoComment_phrases
    fun _ _ => rfl

set_option maxRecDepth 100000 in
theorem readsNoComment_tolerantBody :
    tolerantBody.everywhere Form.readsNoComment = true := by
  decide +kernel

theorem readsNoComment_tolerant : tolerant.Everywhere Form.readsNoComment :=
  forall_tolerant (fun _ form => form.everywhere Form.readsNoComment) readsNoComment_csharp
    readsNoComment_tolerantBody

theorem Fit.growsNodes (h : grammar.Fit) : grammar.Everywhere Form.growsNodes :=
  fun phrase => Form.everywhere_imp Form.growsNodes_of_isFit (h.everywhere phrase)

end Grammar

namespace Document

theorem runsOut_of_read? {grammar : Grammar} (hgrows : grammar.Everywhere Form.growsNodes)
    (htokens : grammar.Everywhere Form.readsNoComment) {source : Text} {trees : List Tree}
    (h : read? grammar source = some trees) :
    ∀ tree ∈ trees, tree.Every (Tree.RunsOut source) := by
  obtain ⟨extras, start, read, after, hskip, hreads, rfl⟩ := exists_reads_of_read? h
  obtain ⟨hstart, -, -⟩ := Gap.skip_laidOut _ (Cursor.in_ofText source) hskip
  intro tree hmem
  rcases List.mem_append.1 hmem with hmem | hmem
  · exact Gap.runsOut_skip _ (Cursor.in_ofText source) hskip tree hmem
  · exact hreads.runsOut hgrows htokens rfl rfl hstart tree hmem

/-- The comments of a parsed document run to the ends of their lines. -/
theorem parse_runsOut (source : Text) : (parse source).tree.Every (Tree.RunsOut source) := by
  refine .intro (Tree.runsOut_of_lexeme rfl) ?_
  rcases children_parse source with hread | hread | ⟨-, hbroken⟩
  · exact runsOut_of_read? Grammar.fit_csharp.growsNodes Grammar.readsNoComment_csharp hread
  · exact runsOut_of_read? Grammar.fit_tolerant.growsNodes Grammar.readsNoComment_tolerant hread
  · rw [hbroken, broken, List.forall_mem_singleton]
    exact .intro (Tree.runsOut_of_lexeme rfl)
      (by simp only [List.not_mem_nil, false_implies, implies_true])

open Place

/-- A comment stands in its source as it was read. -/
theorem Has.comment {source : Text} {comment : Place} (h : (Document.parse source).Has comment)
    (hkind : comment.kind = .comment) :
    comment.node.lexeme ≠ ""
      ∧ (Document.parse source).textOf comment = comment.node.lexeme.toList := by
  have hsound := parse_sound source
  have hlexeme : comment.node.lexeme ≠ "" := (h.shaped hsound).named (.inr (by
    change comment.kind.isExtra = true
    rw [hkind]
    rfl))
  exact ⟨hlexeme, slice_eq_of_slice? ((h.laidOut hsound).token hlexeme)⟩

/-- The text of a comment is a comment for itself, as a whole. -/
theorem Has.commentLength {source : Text} {comment : Place}
    (h : (Document.parse source).Has comment) (hkind : comment.kind = .comment) :
    (Document.parse source).textOf comment ≠ []
      ∧ Gap.commentLength ((Document.parse source).textOf comment)
        = ((Document.parse source).textOf comment).length := by
  obtain ⟨hlexeme, htext⟩ := h.comment hkind
  rw [htext]
  exact ⟨fun hnil => hlexeme (String.toList_eq_nil_iff.1 hnil),
    ((Below.every h (parse_runsOut source)).here hkind hlexeme).1⟩

/-- A comment begins with a slash. -/
theorem Has.head?_comment {source : Text} {comment : Place}
    (h : (Document.parse source).Has comment) (hkind : comment.kind = .comment) :
    ((Document.parse source).textOf comment).head? = some '/' :=
  have ⟨hne, hwhole⟩ := h.commentLength hkind
  Gap.head?_comment hwhole hne

/-- A comment from two slashes on stands in its source before a line break, or
    at the end. -/
theorem Has.runsOut {source : Text} {comment : Place}
    (h : (Document.parse source).Has comment) (hkind : comment.kind = .comment)
    (hstarts : startsWith ((Document.parse source).textOf comment) ['/', '/'] = true) :
    (∀ c ∈ (Document.parse source).textOf comment, breaksLine c = false)
      ∧ ∃ before behind, source = before ++ (Document.parse source).textOf comment ++ behind
        ∧ size before = comment.start ∧ ∀ c, behind.head? = some c → breaksLine c = true := by
  obtain ⟨hlexeme, htext⟩ := h.comment hkind
  rw [htext] at hstarts ⊢
  exact ((Below.every h (parse_runsOut source)).here hkind hlexeme).2 hstarts

end Document

end SharpLint

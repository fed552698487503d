import SharpLint.Proofs.Lint.WrapLines

/-!
# Reading Moved Comments Again

A wrap writes the comments of a gap one behind the other, each trimmed at its
end, and tidying then takes blanks from the lines inside those that go over
several lines. What is left of a comment is a comment again, as a whole: no
slash comes next to a star, because a line feed stays between the two.

So the comments that are read from the text are those that were written. Each
begins at the next ink, and the end of a comment is told by its own characters,
or by the line feed that the wrap writes behind one that begins with two
slashes.

## Main definitions

* `Text.WholeComment`: a trimmed text that is a comment as a whole.
* `endedComment`: such a text with what a wrap writes behind it.

## Theorems

* `Gap.commentLength_append`: Where a comment ends does not depend on what
  stands behind it.
* `Tidied.blockCommentRest`: Tidying leaves the end of a comment where it was.
* `Tidied.exists_comments`: What tidying leaves of comments.
* `Document.texts_eq_of_ink`: The comments that are read are those written.
* `Document.leadingText_again`: So the same is put before the parameter again.
-/

namespace SharpLint

open Text Place

/-! ### Comments for themselves -/

theorem Lexeme.run_append {p : Char → Bool} {text : Text} (h : ∀ c ∈ text, p c = true)
    (behind : Text) : run p (text ++ behind) = text.length + run p behind := by
  induction text with
  | nil => rw [List.nil_append, List.length_nil, Nat.zero_add]
  | cons c text ih =>
      rw [List.cons_append, run, if_pos (h c List.mem_cons_self),
        ih fun d hd => h d (List.mem_cons_of_mem _ hd), List.length_cons, Nat.add_right_comm]

namespace Gap

/-- A character that does not end the comment is passed. -/
theorem blockCommentRest_cons_iff {c : Char} {text : Text}
    (h : ¬(c = '*' ∧ ∃ rest, text = '/' :: rest)) :
    blockCommentRest (c :: text) = some (c :: text).length
      ↔ blockCommentRest text = some text.length := by
  rw [blockCommentRest, Option.map_eq_some_iff]
  · constructor
    · rintro ⟨n, hn, hlength⟩
      rw [hn, Nat.succ.inj hlength]
    · exact fun hrest => ⟨_, hrest, rfl⟩
  · exact fun rest hc htext => h ⟨hc, rest, htext⟩

/-- A block comment ends with a slash. -/
theorem exists_blockCommentRest {text : Text} (h : blockCommentRest text = some text.length) :
    ∃ core, text = core ++ ['/'] := by
  fun_induction blockCommentRest text with
  | case1 rest =>
      rw [Option.some.injEq, List.length_cons, List.length_cons] at h
      obtain rfl : rest = [] := List.eq_nil_of_length_eq_zero (by omega)
      exact ⟨['*'], rfl⟩
  | case2 c rest _ ih =>
      obtain ⟨n, hn, hlength⟩ := Option.map_eq_some_iff.1 h
      obtain ⟨core, rfl⟩ := ih (hn.trans (congrArg some (Nat.succ.inj hlength)))
      exact ⟨c :: core, rfl⟩
  | case3 => exact absurd h (by simp only [reduceCtorEq, not_false_eq_true])

/-- A comment begins with two slashes, or it is a block comment up to its
    end. -/
theorem comment_cases {text : Text} (h : commentLength text = text.length) (hne : text ≠ []) :
    (∃ rest, text = '/' :: '/' :: rest)
      ∨ ∃ rest, text = '/' :: '*' :: rest ∧ blockCommentRest rest = some rest.length := by
  revert h
  fun_cases commentLength text with
  | case1 rest => exact fun _ => .inl ⟨rest, rfl⟩
  | case2 rest =>
      intro h
      refine .inr ⟨rest, rfl, ?_⟩
      cases hrest : blockCommentRest rest with
      | none =>
          rw [hrest] at h
          exact absurd h (by simp only [Option.map_none, Option.getD_none, List.length_cons]; omega)
      | some n =>
          rw [hrest] at h
          exact congrArg some (by
            simpa only [Option.map_some, Option.getD_some, List.length_cons,
              Nat.add_right_cancel_iff] using h)
  | case3 => exact fun h => absurd (List.eq_nil_of_length_eq_zero h.symm) hne

/-- A comment from two slashes on is read up to a line break. -/
theorem commentLength_line {rest behind : Text} (hline : ∀ c ∈ rest, breaksLine c = false)
    (hbehind : ∀ c, behind.head? = some c → breaksLine c = true) :
    commentLength ('/' :: '/' :: (rest ++ behind)) = rest.length + 2 := by
  have hstop (c : Char) : (c != '\n' && c != '\r') = !breaksLine c := by
    rw [breaksLine, Bool.not_or]
    rfl
  have hnone : Lexeme.run (fun c => c != '\n' && c != '\r') behind = 0 := by
    cases behind with
    | nil => rfl
    | cons c behind => rw [Lexeme.run, hstop, hbehind c rfl]; rfl
  change Lexeme.run _ (rest ++ behind) + 2 = _
  rw [Lexeme.run_append (fun c hc => by rw [hstop, hline c hc]; rfl), hnone, Nat.add_zero]

/-- A block comment is read up to its end. -/
theorem commentLength_block {rest : Text} (h : blockCommentRest rest = some rest.length)
    (behind : Text) : commentLength ('/' :: '*' :: (rest ++ behind)) = rest.length + 2 := by
  obtain ⟨happend, -, -⟩ := blockCommentRest_append h behind
  rw [List.take_length] at happend
  change ((blockCommentRest (rest ++ behind)).map (· + 2)).getD 0 = _
  rw [happend]
  rfl

/-- A comment is read to its end, whatever stands behind it; behind one from two
    slashes on, that has to be a line break. -/
theorem commentLength_append {text behind : Text} (h : commentLength text = text.length)
    (hne : text ≠ []) (hbehind : startsWith text ['/', '/'] = true →
      (∀ c ∈ text, breaksLine c = false) ∧ ∀ c, behind.head? = some c → breaksLine c = true) :
    commentLength (text ++ behind) = text.length := by
  rcases comment_cases h hne with ⟨rest, rfl⟩ | ⟨rest, rfl, hrest⟩
  · obtain ⟨hline, hbreak⟩ := hbehind rfl
    exact commentLength_line (fun c hc =>
      hline c (List.mem_cons_of_mem _ (List.mem_cons_of_mem _ hc))) hbreak
  · exact commentLength_block hrest behind

end Gap

/-- The text is a comment as a whole and ends with ink; from two slashes on it
    stands on one line. -/
structure Text.WholeComment (text : Text) : Prop where
  solid : text.Solid
  whole : Gap.commentLength text = text.length
  unbroken : startsWith text ['/', '/'] = true → ∀ c ∈ text, breaksLine c = false

/-- Nothing is trimmed from a text that ends with ink. -/
theorem Text.Solid.trimEnd_eq {text : Text} (h : text.Solid) : trimEnd text = text := by
  obtain ⟨pad, htext, hpad, -⟩ := exists_dropEndWhile isBlankChar text
  obtain ⟨-, core, c, hcore, hc⟩ := h
  rcases List.eq_nil_or_concat pad with rfl | ⟨pad, d, rfl⟩
  · exact (htext.trans (List.append_nil _)).symm
  · rw [List.concat_eq_append] at htext hpad
    rw [htext, ← List.append_assoc, List.append_singleton_inj] at hcore
    rw [isInk, ← hcore.2, hpad d List.mem_concat_self] at hc
    exact absurd hc (by decide)

theorem Text.WholeComment.of_line {rest : Text} (hsolid : Text.Solid ('/' :: '/' :: rest))
    (hline : ∀ c ∈ '/' :: '/' :: rest, breaksLine c = false) :
    Text.WholeComment ('/' :: '/' :: rest) := by
  refine ⟨hsolid, ?_, fun _ => hline⟩
  have hlength : Gap.commentLength ('/' :: '/' :: (rest ++ [])) = rest.length + 2 :=
    Gap.commentLength_line (fun c hc => hline c (List.mem_cons_of_mem _ (List.mem_cons_of_mem _ hc)))
      fun c hc => absurd hc (by simp only [List.head?_nil, reduceCtorEq, not_false_eq_true])
  rwa [List.append_nil] at hlength

theorem Text.WholeComment.of_block {rest : Text}
    (hrest : Gap.blockCommentRest rest = some rest.length) :
    Text.WholeComment ('/' :: '*' :: rest) := by
  have hlength := Gap.commentLength_block hrest []
  rw [List.append_nil] at hlength
  obtain ⟨core, rfl⟩ := Gap.exists_blockCommentRest hrest
  exact ⟨⟨⟨'/', _, rfl, by decide⟩, '/' :: '*' :: core, '/', rfl, by decide⟩, hlength,
    fun hstarts => absurd hstarts Bool.false_ne_true⟩

/-- A comment that is trimmed at its end is a comment as a whole. -/
theorem Document.Has.wholeComment {source : Text} {comment : Place}
    (h : (Document.parse source).Has comment) (hkind : comment.kind = .comment) :
    (trimEnd ((Document.parse source).textOf comment)).WholeComment := by
  obtain ⟨hne, hwhole⟩ := h.commentLength hkind
  have hline := h.runsOut hkind
  generalize (Document.parse source).textOf comment = text at hne hwhole hline
  rcases Gap.comment_cases hwhole hne with ⟨rest, rfl⟩ | ⟨rest, rfl, hrest⟩
  · have hstarts : startsWith ('/' :: '/' :: rest) ['/', '/'] = true := rfl
    obtain ⟨hunbroken, -⟩ := hline hstarts
    obtain ⟨pad, htext, -, hsolid, htrimmed⟩ := exists_trimEnd hstarts
    rw [startsWith, List.isPrefixOf_iff_prefix] at htrimmed
    obtain ⟨more, hmore⟩ := htrimmed
    rw [← hmore] at hsolid htext ⊢
    exact .of_line hsolid fun c hc => hunbroken c (htext ▸ List.mem_append_left _ hc)
  · have hblock := Text.WholeComment.of_block hrest
    rwa [hblock.solid.trimEnd_eq]

/-! ### Comments that are tidied -/

namespace Tidied

variable {touched : Nat → Bool} {before text after left : Text} {c : Char}

/-- Behind ink, where padding at most stands before the end of the line, what is
    left does not begin with ink. -/
theorem not_ink_of_endsLine (h : Tidied touched before text after left)
    (hline : (lastLine before).isBlank = false)
    (hends : endsLine ((text ++ after).dropWhile isPadding) = true) {more : Text}
    (hleft : left = c :: more) : isInk c = false := by
  induction h with
  | nil => exact absurd hleft (List.cons_ne_nil _ _).symm
  | @keep before text after left d _ _ _ =>
      rw [List.cons.injEq] at hleft
      rw [← hleft.1, ← Bool.not_eq_true]
      intro hd
      obtain ⟨hpadding, hnot⟩ := not_endsLine_of_isInk hd (text ++ after)
      rw [List.cons_append, List.dropWhile_cons_of_neg (by rw [hpadding]; decide), hnot] at hends
      exact absurd hends Bool.false_ne_true
  | @drop before text after left d _ hdrop _ ih =>
      -- What goes on a line that is not blank is padding.
      rw [onBlankLine, hline, Bool.false_and, Bool.false_eq_true, or_false, trails,
        Bool.and_eq_true] at hdrop
      have hfeed : '\n' ∉ [d] := by
        rw [List.mem_singleton]
        rintro rfl
        exact absurd hdrop.1 (by decide)
      refine ih ?_ hdrop.2 hleft
      rw [lastLine_append hfeed, isBlank, List.all_append, Bool.and_eq_false_iff]
      exact .inl hline

/-- Behind ink, what is left begins with ink only if the text does. -/
theorem first_of_ink {more : Text} (h : Tidied touched before text after (c :: more))
    (hc : isInk c = true) (hline : (lastLine before).isBlank = false) :
    ∃ rest, text = c :: rest := by
  have hends := fun hends => h.not_ink_of_endsLine hline hends rfl
  cases h with
  | keep _ _ => exact ⟨_, rfl⟩
  | @drop _ text _ _ d _ hdrop _ =>
      rw [onBlankLine, hline, Bool.false_and, Bool.false_eq_true, or_false, trails,
        Bool.and_eq_true] at hdrop
      rw [List.cons_append, List.dropWhile_cons_of_pos hdrop.1, hc] at hends
      exact absurd (hends hdrop.2) (by decide)

/-- The end of a block comment is still its first one: where blanks go between a
    star and a slash, a line feed stays. -/
theorem blockCommentRest (h : Tidied touched before text after left)
    (hrest : Gap.blockCommentRest text = some text.length) :
    Gap.blockCommentRest left = some left.length := by
  induction h with
  | nil => exact absurd hrest (by simp only [Gap.blockCommentRest, reduceCtorEq, not_false_eq_true])
  | @keep before text after left c _ tail ih =>
      by_cases hends : c = '*' ∧ ∃ rest, text = '/' :: rest
      · obtain ⟨rfl, rest, rfl⟩ := hends
        -- The comment is its end.
        rw [Gap.blockCommentRest, Option.some.injEq, List.length_cons, List.length_cons] at hrest
        obtain rfl : rest = [] := List.eq_nil_of_length_eq_zero (by omega)
        obtain ⟨more, rfl, hmore⟩ := tail.keeps_ink (by decide)
        cases hmore
        rfl
      · rw [Gap.blockCommentRest_cons_iff hends] at hrest
        rw [Gap.blockCommentRest_cons_iff ?_]
        · exact ih hrest
        · rintro ⟨rfl, more, rfl⟩
          exact hends ⟨rfl, tail.first_of_ink (by decide) (not_isBlank_lastLine (by decide))⟩
  | @drop before text after left c _ hdrop tail ih =>
      refine ih ((Gap.blockCommentRest_cons_iff ?_).1 hrest)
      rintro ⟨rfl, -⟩
      exact absurd (isBlankChar_of_goes hdrop) (by decide)

/-- What is left of a comment is a comment, and begins like it. -/
theorem wholeComment (h : Tidied touched before text after left) (htext : text.WholeComment) :
    left.WholeComment ∧ startsWith left ['/', '/'] = startsWith text ['/', '/'] := by
  rcases Gap.comment_cases htext.whole htext.solid.ne_nil with ⟨rest, rfl⟩ | ⟨rest, rfl, hrest⟩
  · rw [h.keeps_solid htext.solid fun hmem => absurd (htext.unbroken rfl _ hmem) (by decide)]
    exact ⟨htext, rfl⟩
  · obtain ⟨behind, rfl, hstar⟩ := h.keeps_ink (by decide)
    obtain ⟨body, rfl, hbehind⟩ := hstar.keeps_ink (by decide)
    exact ⟨.of_block (hbehind.blockCommentRest hrest), rfl⟩

end Tidied

/-- What a wrap writes behind a comment. -/
def commentEnd (indent text : Text) : Text :=
  if startsWith text ['/', '/'] then '\n' :: indent else [' ']

/-- A comment with what a wrap writes behind it. -/
def endedComment (indent text : Text) : Text :=
  text ++ commentEnd indent text

theorem writtenComment_eq (document : Document) (indent : Text) (comment : Place) :
    writtenComment document indent comment
      = endedComment indent (trimEnd (document.textOf comment)) := by
  rw [writtenComment, endedComment, commentEnd]
  split <;> rfl

section

variable {indent : Text} {texts : List Text}

/-- Comments before ink begin with ink. -/
theorem first_comments (htexts : ∀ text ∈ texts, text.WholeComment) {after : Text}
    (hafter : ∃ c rest, after = c :: rest ∧ isInk c = true) :
    ∃ c rest, texts.flatMap (endedComment indent) ++ after = c :: rest ∧ isInk c = true := by
  cases texts with
  | nil => exact hafter
  | cons text texts =>
      obtain ⟨⟨c, rest, rfl, hc⟩, -⟩ := (htexts text List.mem_cons_self).solid
      exact ⟨c, _, by rw [List.flatMap_cons, endedComment]; rfl, hc⟩

/-- What a wrap writes behind a comment stays between the comment and ink: the
    line feed stands behind ink, and the indent before ink. -/
theorem Tidied.keeps_commentEnd {touched : Nat → Bool} {before text after left : Text}
    (h : Tidied touched (before ++ text) (commentEnd indent text) after left)
    (htext : text.WholeComment) (hindent : '\n' ∉ indent)
    (hafter : ∃ c rest, after = c :: rest ∧ isInk c = true) : left = commentEnd indent text := by
  obtain ⟨c, rest, rfl, hc⟩ := hafter
  obtain ⟨-, core, d, htext, hd⟩ := htext.solid
  rw [commentEnd] at h ⊢
  split at h
  · next hslashes =>
    rw [if_pos hslashes]
    -- The comment ends in ink: the feed behind it trails nothing and its line is not blank.
    rw [htext, ← List.append_assoc] at h
    obtain ⟨line, rfl, hline⟩ := h.keeps_first (by decide) (not_isBlank_lastLine hd)
    rw [hline.keeps_before_ink hindent hc]
  · next hslashes =>
    rw [if_neg hslashes]
    exact h.keeps_before_ink (by decide) hc

/-- What tidying leaves of comments before ink: comments, with what was written
    behind each. -/
theorem Tidied.exists_comments {touched : Nat → Bool} {before after left : Text}
    (h : Tidied touched before (texts.flatMap (endedComment indent)) after left)
    (hindent : '\n' ∉ indent) (htexts : ∀ text ∈ texts, text.WholeComment)
    (hafter : ∃ c rest, after = c :: rest ∧ isInk c = true) :
    ∃ lefts : List Text, left = lefts.flatMap (endedComment indent)
      ∧ ∀ text ∈ lefts, text.WholeComment := by
  induction texts generalizing before left with
  | nil =>
      cases h
      exact ⟨[], rfl, fun _ hmem => absurd hmem List.not_mem_nil⟩
  | cons text texts ih =>
      have htext := htexts text List.mem_cons_self
      have hmore : ∀ other ∈ texts, other.WholeComment := fun other hother =>
        htexts other (List.mem_cons_of_mem _ hother)
      rw [List.flatMap_cons] at h
      obtain ⟨head, tail, rfl, hhead, htail⟩ := h.split
      obtain ⟨lefts, rfl, hlefts⟩ := ih htail hmore
      obtain ⟨kept, ending, rfl, hkept, hending⟩ := hhead.split
      obtain ⟨hwhole, hstarts⟩ := hkept.wholeComment htext
      obtain rfl := hending.keeps_commentEnd htext hindent (first_comments hmore hafter)
      refine ⟨kept :: lefts, ?_, fun other hother => ?_⟩
      · -- Whether the line ends behind a comment is told by its first characters.
        rw [List.flatMap_cons, endedComment, commentEnd, commentEnd, hstarts]
      · rcases List.mem_cons.1 hother with rfl | hother
        · exact hwhole
        · exact hlefts other hother

/-! ### Comments that are read -/

theorem isBlank_commentEnd (hindent : indent.isBlank = true) (text : Text) :
    (commentEnd indent text).isBlank = true := by
  rw [commentEnd]
  split
  · rw [isBlank, List.all_cons, Bool.and_eq_true]
    exact ⟨by decide, hindent⟩
  · rfl

theorem filter_endedComment (hindent : indent.isBlank = true) (text : Text) :
    (endedComment indent text).filter isInk = text.filter isInk := by
  rw [endedComment, List.filter_append, isBlank_iff_filter.1 (isBlank_commentEnd hindent text),
    List.append_nil]

/-- What stands in a text inside a stretch is part of the stretch. -/
theorem Text.HoldsAt.inside {text x y z part : Text} {offset : Nat} (h : text.HoldsAt offset part)
    (htext : text = x ++ y ++ z) (hfrom : size x ≤ offset)
    (hto : offset + size part ≤ size (x ++ y)) :
    ∃ a b, y = a ++ part ++ b ∧ size (x ++ a) = offset := by
  obtain ⟨before, after, hcut, rfl⟩ := h
  rw [htext, List.append_assoc, List.append_assoc] at hcut
  obtain ⟨a, rfl, ha⟩ := exists_append_of_size_le hcut hfrom
  rw [← List.append_assoc] at ha
  obtain ⟨b, hb, -⟩ := exists_append_of_size_le ha.symm (by
    simp only [size_append] at hto ⊢
    omega)
  exact ⟨a, b, hb, rfl⟩

/-- What is written of a comment is read as the comment, whatever follows. -/
theorem commentLength_endedComment {text : Text} (htext : text.WholeComment) (behind : Text) :
    Gap.commentLength (endedComment indent text ++ behind) = text.length := by
  rw [endedComment, List.append_assoc]
  refine Gap.commentLength_append htext.whole htext.solid.ne_nil fun hstarts =>
    ⟨htext.unbroken hstarts, fun c hc => ?_⟩
  rw [commentEnd, if_pos hstarts, List.cons_append, List.head?_cons, Option.some.injEq] at hc
  rw [← hc]
  rfl

namespace Document

variable {source x y z lead : Text} {comment : Place} {comments : List Place}

/-- A comment is what is read where it stands. -/
theorem Has.commentLength_append (h : (parse source).Has comment) (hkind : comment.kind = .comment)
    (hsource : source = x ++ (parse source).textOf comment ++ y) (hx : size x = comment.start) :
    Gap.commentLength ((parse source).textOf comment ++ y)
      = ((parse source).textOf comment).length := by
  obtain ⟨hne, hwhole⟩ := h.commentLength hkind
  refine Gap.commentLength_append hwhole hne fun hstarts => ?_
  obtain ⟨hline, before, behind, hcut, hbefore, hbreak⟩ := h.runsOut hkind hstarts
  have hsame := hsource.symm.trans hcut
  rw [List.append_assoc, List.append_assoc] at hsame
  obtain ⟨-, hrest⟩ := append_inj_of_size hsame (hx.trans hbefore.symm)
  exact ⟨hline, fun c hc => hbreak c (List.append_cancel_left hrest ▸ hc)⟩

/-- Comments inside a stretch are part of it. -/
theorem flatMap_textOf_sublist (hsource : source = x ++ y ++ z)
    (hcomments : ∀ comment ∈ comments, (parse source).Has comment
      ∧ size x ≤ comment.start ∧ comment.stop ≤ size (x ++ y))
    (hpairs : comments.Pairwise fun a b => a.stop ≤ b.start) :
    (comments.flatMap (parse source).textOf).Sublist y := by
  have hlaid : ∀ comment ∈ comments, comment.node.LaidOut source := fun comment hcomment =>
    (hcomments comment hcomment).1.laidOut (parse_sound source)
  have hslice : source.slice ⟨size x, size (x ++ y)⟩ = y :=
    slice_eq_of_slice? (slice?_eq_some_iff.2 ⟨x, z, hsource, rfl, (size_append x y).symm⟩)
  -- Spans that come in order inside the stretch slice a sublist of it.
  have hsub : ((comments.map Place.span).flatMap source.slice).Sublist
      (source.slice ⟨size x, size (x ++ y)⟩) := by
    refine slices_sublist _ ⟨x, y ++ z, by rw [hsource, List.append_assoc], rfl⟩
      ⟨x ++ y, z, hsource, rfl⟩ (fun span hspan => ?_) (fun span hspan => ?_)
      (List.pairwise_map.2 hpairs)
    · obtain ⟨comment, hcomment, rfl⟩ := List.mem_map.1 hspan
      exact ⟨(hlaid comment hcomment).startCut, (hlaid comment hcomment).stopCut⟩
    · obtain ⟨comment, hcomment, rfl⟩ := List.mem_map.1 hspan
      exact ⟨(hcomments comment hcomment).2.1, (hlaid comment hcomment).proper,
        (hcomments comment hcomment).2.2⟩
  rwa [hslice, List.flatMap_map] at hsub

/-- Nothing but blanks stands before the first of some comments that have all the
    ink of a stretch. -/
theorem blank_before_first {a b : Text}
    (hsource : source = x ++ (a ++ (parse source).textOf comment ++ b) ++ z)
    (hstart : size (x ++ a) = comment.start)
    (hcomments : ∀ other ∈ comment :: comments, (parse source).Has other
      ∧ other.stop ≤ size (x ++ (a ++ (parse source).textOf comment ++ b)))
    (hpairs : (comment :: comments).Pairwise fun a b => a.stop ≤ b.start)
    (hink : ((comment :: comments).flatMap (parse source).textOf).filter isInk
      = (a ++ (parse source).textOf comment ++ b).filter isInk) : a.isBlank = true := by
  obtain ⟨-, hsize⟩ :=
    (hcomments comment List.mem_cons_self).1.holdsAt (parse_sound source)
  -- The other comments have their ink behind this one, so none is before it.
  have hbehind : (comments.flatMap (parse source).textOf).Sublist b := by
    refine flatMap_textOf_sublist (x := x ++ a ++ (parse source).textOf comment) (z := z) ?_
      (fun other hother => ?_) hpairs.tail
    · refine hsource.trans ?_
      simp only [List.append_assoc]
    · have hlater := List.rel_of_pairwise_cons hpairs hother
      obtain ⟨hhas, hto⟩ := hcomments other (List.mem_cons_of_mem _ hother)
      rw [← List.append_assoc, ← List.append_assoc] at hto
      exact ⟨hhas, by rw [size_append, hstart, hsize]; exact hlater, hto⟩
  have hlengths := congrArg List.length hink
  have hle := (hbehind.filter isInk).length_le
  simp only [List.flatMap_cons, List.filter_append, List.length_append] at hlengths
  rw [isBlank_iff_filter, ← List.length_eq_zero_iff]
  omega

/-- The first of some comments that have all the ink of a stretch is the comment
    that was written first. -/
theorem first_eq_of_ink {text : Text} (hsource : source
      = x ++ (lead ++ (endedComment indent text ++ y)) ++ z)
    (hlead : lead.isBlank = true) (htext : text.WholeComment)
    (hcomments : ∀ other ∈ comment :: comments, (parse source).Has other ∧ other.kind = .comment
      ∧ size x ≤ other.start ∧ other.stop ≤ size (x ++ (lead ++ (endedComment indent text ++ y))))
    (hpairs : (comment :: comments).Pairwise fun a b => a.stop ≤ b.start)
    (hink : ((comment :: comments).flatMap (parse source).textOf).filter isInk
      = (endedComment indent text ++ y).filter isInk) :
    (parse source).textOf comment = text ∧ comment.stop = size (x ++ lead ++ text) := by
  obtain ⟨hhas, hkind, hfrom, hto⟩ := hcomments comment List.mem_cons_self
  obtain ⟨hholds, hsize⟩ := hhas.holdsAt (parse_sound source)
  obtain ⟨a, b, hcut, ha⟩ := hholds.inside hsource hfrom (hsize ▸ hto)
  have hblank : a.isBlank = true := by
    refine blank_before_first (hsource.trans (by rw [hcut])) ha (fun other hother => ?_) hpairs ?_
    · obtain ⟨hotherHas, -, -, hotherTo⟩ := hcomments other hother
      exact ⟨hotherHas, hcut ▸ hotherTo⟩
    · rw [hink, ← hcut, List.filter_append lead, isBlank_iff_filter.1 hlead, List.nil_append]
  obtain rfl : lead = a := by
    obtain ⟨⟨c, rest, rfl, hc⟩, -⟩ := htext.solid
    obtain ⟨more, hmore⟩ := List.head?_eq_some_iff.1 (hhas.head?_comment hkind)
    rw [hmore, endedComment] at hcut
    simp only [List.append_assoc, List.cons_append] at hcut
    exact cut_before_unique hcut
      ((isBlank_iff_filter.1 hlead).trans (isBlank_iff_filter.1 hblank).symm) ⟨c, _, rfl, hc⟩
      ⟨'/', _, rfl, by decide⟩
  have hwhole : source = x ++ lead ++ (parse source).textOf comment ++ (b ++ z) := by
    refine hsource.trans ?_
    rw [hcut]
    simp only [List.append_assoc]
  -- Both are read at the same place, so one is as long as the other.
  have hsame : (parse source).textOf comment = text := by
    rw [List.append_assoc, List.append_cancel_left_eq] at hcut
    have hread : Gap.commentLength (endedComment indent text ++ (y ++ z)) = text.length :=
      commentLength_endedComment htext (y ++ z)
    rw [← List.append_assoc, hcut, List.append_assoc,
      hhas.commentLength_append hkind hwhole ha] at hread
    rw [endedComment, List.append_assoc] at hcut
    exact (List.append_inj hcut.symm hread).1
  exact ⟨hsame, by rw [← hsize, ← ha, ← hsame, size_append _ ((parse source).textOf comment)]⟩

/-- Comments that are read where comments were written, and that have all the
    ink there, are those that were written. -/
theorem texts_eq_of_ink (hsource : source
      = x ++ (lead ++ texts.flatMap (endedComment indent)) ++ z)
    (hlead : lead.isBlank = true) (hindent : indent.isBlank = true)
    (htexts : ∀ text ∈ texts, text.WholeComment)
    (hcomments : ∀ comment ∈ comments, (parse source).Has comment ∧ comment.kind = .comment
      ∧ size x ≤ comment.start
      ∧ comment.stop ≤ size (x ++ (lead ++ texts.flatMap (endedComment indent))))
    (hpairs : comments.Pairwise fun a b => a.stop ≤ b.start)
    (hink : (comments.flatMap (parse source).textOf).filter isInk
      = (texts.flatMap (endedComment indent)).filter isInk) :
    comments.map (parse source).textOf = texts := by
  induction texts generalizing x lead comments with
  | nil =>
      cases comments with
      | nil => rfl
      | cons comment comments =>
          obtain ⟨hhas, hkind, -⟩ := hcomments comment List.mem_cons_self
          obtain ⟨rest, hrest⟩ := List.head?_eq_some_iff.1 (hhas.head?_comment hkind)
          rw [List.flatMap_cons, hrest, List.cons_append, List.filter_cons_of_pos (by decide)] at hink
          exact absurd hink (List.cons_ne_nil _ _)
  | cons text texts ih =>
      have htext := htexts text List.mem_cons_self
      rw [List.flatMap_cons] at hsource hcomments hink
      cases comments with
      | nil =>
          obtain ⟨⟨c, rest, rfl, hc⟩, -⟩ := htext.solid
          rw [List.filter_append, filter_endedComment hindent, List.filter_cons_of_pos hc] at hink
          exact absurd hink.symm (List.cons_ne_nil _ _)
      | cons comment comments =>
          obtain ⟨hsame, hstop⟩ := first_eq_of_ink hsource hlead htext hcomments hpairs hink
          -- The others are read behind the comment and its end.
          have hgroup : x ++ (lead ++ (endedComment indent text ++ texts.flatMap (endedComment indent)))
              = x ++ lead ++ text ++ (commentEnd indent text ++ texts.flatMap (endedComment indent)) := by
            rw [endedComment]
            simp only [List.append_assoc]
          rw [hgroup] at hsource hcomments
          rw [List.flatMap_cons, hsame, List.filter_append, List.filter_append,
            filter_endedComment hindent, List.append_cancel_left_eq] at hink
          refine congrArg₂ List.cons hsame (ih hsource (isBlank_commentEnd hindent text)
            (fun other hother => htexts other (List.mem_cons_of_mem _ hother))
            (fun other hother => ?_) hpairs.tail hink)
          obtain ⟨hhas, hkind, -, hto⟩ := hcomments other (List.mem_cons_of_mem _ hother)
          exact ⟨hhas, hkind, hstop ▸ List.rel_of_pairwise_cons hpairs hother, hto⟩

end Document

/-! ### Gaps that are read -/

/-- What a wrap puts into a gap: the line feed, the indent and the trimmed
    comments. -/
theorem leadingText_eq_comments (document : Document) (list : Place) (gap : Span) (indent : Text) :
    leadingText document list gap indent = '\n' :: (indent ++
      ((list.commentsIn gap).map fun comment => trimEnd (document.textOf comment)).flatMap
        (endedComment indent)) := by
  rw [leadingText_eq, List.flatMap_map, List.cons_append]
  exact congrArg ('\n' :: indent ++ List.flatMap · (list.commentsIn gap))
    (funext (writtenComment_eq document indent))

/-- What tidying leaves of it between ink has the same form. -/
theorem Tidied.exists_leadingText {source before after left : Text} {touched : Nat → Bool}
    {list : Place} {gap : Span}
    (h : Tidied touched before (leadingText (.parse source) list gap indent) after left)
    (hlist : (Document.parse source).Has list) (hindent : '\n' ∉ indent)
    (hbefore : ∃ core c, before = core ++ [c] ∧ isInk c = true)
    (hafter : ∃ c rest, after = c :: rest ∧ isInk c = true) :
    ∃ texts : List Text, left = '\n' :: (indent ++ texts.flatMap (endedComment indent))
      ∧ ∀ text ∈ texts, text.WholeComment := by
  obtain ⟨core, c, rfl, hc⟩ := hbefore
  rw [leadingText_eq_comments] at h
  -- The text is a feed, the indent and the comments with their ends; each part is tidied in turn.
  obtain ⟨line, rfl, hline⟩ := h.keeps_first (by decide) (not_isBlank_lastLine hc)
  obtain ⟨spaces, comments, rfl, hspaces, hcomments⟩ := hline.split
  have htexts : ∀ text ∈ (list.commentsIn gap).map fun comment =>
      trimEnd ((Document.parse source).textOf comment), text.WholeComment := by
    intro text htext
    obtain ⟨comment, hcomment, rfl⟩ := List.mem_map.1 htext
    obtain ⟨hbelow, hkind, -⟩ := mem_commentsIn.1 hcomment
    exact (hlist.below hbelow).wholeComment hkind
  obtain ⟨d, rest, hnext, hd⟩ := first_comments htexts hafter
  rw [hnext] at hspaces
  obtain ⟨lefts, rfl, hlefts⟩ := hcomments.exists_comments hindent htexts hafter
  exact ⟨lefts, by rw [hspaces.keeps_before_ink hindent hd], hlefts⟩

/-- What a wrap puts into a gap of this form is what stands there, if all ink in
    the gap is that of its comments. -/
theorem Document.leadingText_again {source x z : Text} {list : Place} {gap : Span}
    (hlist : (parse source).Has list)
    (hsource : source = x ++ '\n' :: (indent ++ texts.flatMap (endedComment indent)) ++ z)
    (hstart : size x = gap.start)
    (hstop : size (x ++ '\n' :: (indent ++ texts.flatMap (endedComment indent))) = gap.stop)
    (hindent : indent.isBlank = true) (htexts : ∀ text ∈ texts, text.WholeComment)
    (hink : ((list.commentsIn gap).flatMap (parse source).textOf).filter isInk
      = ('\n' :: (indent ++ texts.flatMap (endedComment indent))).filter isInk) :
    leadingText (parse source) list gap indent
      = '\n' :: (indent ++ texts.flatMap (endedComment indent)) := by
  have hlead : isBlank ('\n' :: indent) = true := by
    rw [isBlank, List.all_cons, Bool.and_eq_true]
    exact ⟨by decide, hindent⟩
  rw [← List.cons_append, List.filter_append, isBlank_iff_filter.1 hlead, List.nil_append] at hink
  rw [← List.cons_append] at hsource hstop
  have hsame := texts_eq_of_ink hsource hlead hindent htexts (fun comment hcomment => ?_)
    (pairwise_commentsIn (parse_sound source) hlist gap) hink
  · -- No comment has blanks at its end.
    rw [leadingText_eq_comments, ← Function.comp_def trimEnd, ← List.map_map, hsame,
      List.map_congr_left fun text htext => (htexts text htext).solid.trimEnd_eq, List.map_id']
  · obtain ⟨hbelow, hkind, hfrom, hto⟩ := mem_commentsIn.1 hcomment
    exact ⟨hlist.below hbelow, hkind, hstart ▸ hfrom, hstop ▸ hto⟩

end

end SharpLint

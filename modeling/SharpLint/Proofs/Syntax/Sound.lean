import SharpLint.Proofs.Syntax.Shape

/-!
# Sound Documents

What every parsed document is like: its tree is laid out on its source, and
every node in it is shaped. The grammar of the language and the one that takes
bodies of functions as they come pass all checks, so this holds of the document
of every text.

## Main definitions

* `Document.Sound`: a document whose tree fits its source and the grammar.

## Theorems

* `Grammar.fit_csharp`, `Grammar.fit_tolerant`: The grammars pass the checks.
* `Document.parse_sound`: Every parsed document is sound.
-/

namespace SharpLint

namespace Form

/-- What holds of parts that pass a check holds of parts that pass a stronger
    one. -/
theorem everywhere_imp {p q : Form → Bool} (hpq : ∀ form, p form = true → q form = true)
    {form : Form} (h : form.everywhere p = true) : form.everywhere q = true := by
  induction form with
  | nothing | token | ahead | «unless» | glued | call => exact hpq _ h
  | seq first second ihFirst ihSecond | alt first second ihFirst ihSecond
  | grow first second ihFirst ihSecond =>
      simp only [everywhere, Bool.and_eq_true] at h ⊢
      exact ⟨⟨hpq _ h.1.1, ihFirst h.1.2⟩, ihSecond h.2⟩
  | many form ih | node kind form ih | label part form ih =>
      simp only [everywhere, Bool.and_eq_true] at h ⊢
      exact ⟨hpq _ h.1, ih h.2⟩

theorem growsNodes_of_isFit (form : Form) (h : form.isFit = true) : form.growsNodes = true := by
  cases form with
  | grow base step =>
      simp only [isFit, Bool.and_eq_true] at h
      exact h.1.1.1
  | _ => rfl

end Form

namespace Grammar

/-- The phrases of the language, operands up to the level above which they are
    all read alike. -/
def phrases : List Phrase :=
  [.unit, .part .items, .part .members, .part .statements, .part .enumMembers,
    .conditional .items, .conditional .members, .conditional .statements, .conditional .enumMembers,
    .alternative .items, .alternative .members, .alternative .statements,
    .alternative .enumMembers, .condition, .attributeList, .parameterList, .argumentList,
    .bracketedArgumentList, .declarationList, .functionBody, .block, .statement, .type,
    .elementType, .typeArguments, .variableDeclaration, .tuplePattern, .unary false, .unary true,
    .initializer, .interpolated, .queryBody, .pattern, .plainPattern, .designations, .group,
    .debris] ++ (List.range 18).flatMap fun level => [.operand false level, .operand true level]

/-- A phrase is one of the list, or an operand of a high level. -/
theorem mem_phrases (phrase : Phrase) :
    phrase ∈ phrases ∨ ∃ bare level, phrase = .operand bare level ∧ 18 ≤ level := by
  cases phrase with
  | operand bare level =>
      by_cases hlevel : level < 18
      · refine .inl (List.mem_append_right _ (List.mem_flatMap.2 ⟨level, List.mem_range.2 hlevel, ?_⟩))
        cases bare
        · exact List.mem_cons_self
        · exact List.mem_cons_of_mem _ List.mem_cons_self
      · exact .inr ⟨bare, level, rfl, Nat.le_of_not_lt hlevel⟩
  | part stretch | conditional stretch | alternative stretch =>
      exact .inl (by cases stretch <;> decide)
  | unary bare => exact .inl (by cases bare <;> decide)
  | _ => exact .inl (by decide)

theorem operand_of_le (bare : Bool) {level : Nat} (h : 18 ≤ level) :
    operand bare level = .call (.unary bare) := by
  have hbare : bareOperands[level]? = none := List.getElem?_eq_none (by
    rw [bareOperands, List.length_map, List.length_range]; exact h)
  have hall : operands[level]? = none := List.getElem?_eq_none (by
    rw [operands, List.length_map, List.length_range]; exact h)
  unfold operand
  cases bare
  · rw [if_neg (by decide), hall, Option.getD_none]
  · rw [if_pos rfl, hbare, Option.getD_none]

/-- What the listed phrases of the language pass, and the call that operands of
    a high level are read as, all phrases pass. -/
theorem forall_csharp (check : Phrase → Form → Bool)
    (hphrases : (phrases.all fun phrase => check phrase (csharp phrase)) = true)
    (hcall : ∀ bare level, check (.operand bare level) (.call (.unary bare)) = true)
    (phrase : Phrase) : check phrase (csharp phrase) = true := by
  rcases mem_phrases phrase with hmem | ⟨bare, level, rfl, hlevel⟩
  · exact List.all_eq_true.1 hphrases phrase hmem
  · change check _ (operand bare level) = true
    rw [operand_of_le bare hlevel]
    exact hcall bare level

/-- The tolerant grammar is the language but for the bodies of functions. -/
theorem forall_tolerant (check : Phrase → Form → Bool)
    (hcsharp : ∀ phrase, check phrase (csharp phrase) = true)
    (hbody : check .functionBody tolerantBody = true) (phrase : Phrase) :
    check phrase (tolerant phrase) = true := by
  by_cases hphrase : phrase = .functionBody
  · rw [hphrase]
    exact hbody
  · have hsame : tolerant phrase = csharp phrase := by
      cases phrase <;> first | rfl | exact absurd rfl hphrase
    rw [hsame]
    exact hcsharp phrase

set_option maxRecDepth 100000 in
theorem admits_phrases : (phrases.all fun phrase => phrase.admits (csharp phrase)) = true := by
  decide +kernel

/-- The grammar of the language passes all checks. -/
theorem fit_csharp : csharp.Fit :=
  forall_csharp Phrase.admits admits_phrases fun bare _ => by cases bare <;> rfl

set_option maxRecDepth 100000 in
theorem admits_tolerantBody : Phrase.functionBody.admits tolerantBody = true := by
  decide +kernel

/-- The grammar that takes bodies of functions as they come passes all
    checks. -/
theorem fit_tolerant : tolerant.Fit :=
  forall_tolerant Phrase.admits fit_csharp admits_tolerantBody

end Grammar

namespace Document

/-- The tree of the document lies on its source, and its nodes are as their
    kinds want them. -/
structure Sound (document : Document) : Prop where
  lines : document.lines = .ofText document.source
  laidOut : document.tree.Every (Tree.LaidOut document.source)
  shaped : document.tree.Every Tree.Shaped

/-- The children of a sound document stand in order, apart, and inside their
    parents. -/
theorem Sound.wellFormed {document : Document} (h : document.Sound) :
    document.tree.WellFormed :=
  Tree.wellFormed_of_every h.laidOut

/-- Trees that may stand at the top of a source. -/
structure Tops (source : Text) (trees : List Tree) : Prop where
  tiles : ∃ start, Tree.Tiles start source.size trees
  laidOut : ∀ tree ∈ trees, tree.Every (Tree.LaidOut source)
  fits : ∀ tree ∈ trees, tree.Fits
  kinds : ∀ tree ∈ trees, Kind.mayHold .compilationUnit tree.kind = true

/-- A reading of a source is what stands before its first form, and what the
    grammar reads of a unit behind that. -/
theorem exists_reads_of_read? {grammar : Grammar} {source : Text} {trees : List Tree}
    (h : read? grammar source = some trees) :
    ∃ extras start read after,
      Gap.skip .free (List.length source + 1) (.ofText source) = (extras, start)
        ∧ grammar.Reads (.call .unit) start read after ∧ trees = extras ++ read := by
  simp only [read?] at h
  generalize hskip : Gap.skip .free (List.length source + 1) (.ofText source) = skipped at h ⊢
  obtain ⟨extras, start⟩ := skipped
  split at h
  · next read after hread =>
    rw [Option.some.injEq] at h
    exact ⟨extras, start, read, after, rfl, Grammar.reads_of_read hread, h.symm⟩
  · exact absurd h (by simp only [reduceCtorEq, not_false_eq_true])

theorem tops_of_read? {grammar : Grammar} (hgrammar : grammar.Fit) {source : Text}
    {trees : List Tree} (h : read? grammar source = some trees) : Tops source trees := by
  obtain ⟨extras, start, read, after, hskip, hreads, rfl⟩ := exists_reads_of_read? h
  obtain ⟨hstart, hextras, hlaidExtras⟩ := Gap.skip_laidOut _ (Cursor.in_ofText source) hskip
  have hasides := Grammar.isAside_of_skip _ hskip
  have hbetween := hreads.laidOut
    (fun phrase => Form.everywhere_imp Form.growsNodes_of_isFit (hgrammar.everywhere phrase)) rfl
    hstart
  have hfits := hreads.shaped hgrammar rfl
  have hkinds : ∀ tree ∈ read, Kind.mayHold .compilationUnit tree.kind = true :=
    hreads.topsOf hgrammar.headsRight (fun kind => Kind.mayHold_of_not_isTelling _) (by decide)
  have hend := hbetween.inside.cutsAt.le
  -- The asides before the first form stand at the top with what it reads.
  refine ⟨⟨_, Tree.tiles_append.2 ⟨_, hextras, hbetween.tiles.widen (Nat.le_refl _) hend⟩⟩,
    fun tree hmem => ?_, fun tree hmem => ?_, fun tree hmem => ?_⟩
  all_goals rcases List.mem_append.1 hmem with hmem | hmem
  · exact hlaidExtras tree hmem
  · exact hbetween.laidOut tree hmem
  · exact (hasides tree hmem).fits
  · exact hfits tree hmem
  · exact Kind.mayHold_of_not_isTelling _ (Kind.not_isTelling_of_isExtra (hasides tree hmem).extra)
  · exact hkinds tree hmem

/-- A source that fits no form is not empty, so its one node is not. -/
theorem tops_broken {source : Text} (h : source ≠ []) : Tops source (broken source) := by
  have hsize : 0 < source.size := by
    cases source with
    | nil => exact absurd rfl h
    | cons c rest =>
        have := Char.utf8Size_pos c
        simp only [Text.size_cons]
        omega
  refine ⟨⟨0, Nat.le_refl 0, hsize, Nat.le_refl _⟩, ?_, ?_, ?_⟩
  -- The one node has no children, so what is asked of them holds.
  all_goals
    simp only [broken, List.mem_singleton, forall_eq]
  · exact .intro ⟨Nat.zero_le _, Nat.zero_le _, Text.cutsAt_zero source, Text.cutsAt_size source,
      fun hne => absurd rfl hne, fun _ first hfirst => absurd hfirst (by
        simp only [List.head?_nil, reduceCtorEq, not_false_eq_true]), fun _ _ last hlast =>
      absurd hlast (by simp only [List.getLast?_nil, reduceCtorEq, not_false_eq_true])⟩
      (by simp only [List.not_mem_nil, false_implies, implies_true])
  · refine ⟨.intro (Tree.shaped_of_isPlain rfl ?_ (fun _ => .inr rfl)
      (fun hkind => absurd hkind (show ¬(Kind.error = .identifier ∨ Kind.error.isExtra = true)
        by decide)) (fun hne => absurd rfl hne) (fun hne => absurd rfl hne)
      (fun _ hkind => absurd rfl hkind) ?_) ?_,
      Tree.labelFits_of_none rfl⟩
    all_goals simp only [List.not_mem_nil, false_implies, implies_true]
  · rfl

theorem read?_nil : (read? Grammar.csharp []).isSome = true := by
  decide +kernel

/-- What stands at the top of a document is a reading in one of the grammars, or
    an error where there is something that neither reads. -/
theorem children_parse (source : Text) :
    read? Grammar.csharp source = some (parse source).tree.children
      ∨ read? Grammar.tolerant source = some (parse source).tree.children
      ∨ source ≠ [] ∧ (parse source).tree.children = broken source := by
  have htrees : (parse source).tree.children = ((read? Grammar.csharp source).or
      (read? Grammar.tolerant source)).getD (broken source) := rfl
  cases hcsharp : read? Grammar.csharp source with
  | some trees =>
      rw [hcsharp, Option.some_or, Option.getD_some] at htrees
      exact .inl (congrArg some htrees.symm)
  | none =>
      rw [hcsharp, Option.none_or] at htrees
      cases htolerant : read? Grammar.tolerant source with
      | some trees =>
          rw [htolerant, Option.getD_some] at htrees
          exact .inr (.inl (congrArg some htrees.symm))
      | none =>
          rw [htolerant, Option.getD_none] at htrees
          refine .inr (.inr ⟨fun hnil => ?_, htrees⟩)
          -- The language has a reading of the empty source.
          have hsome := read?_nil
          rw [← hnil, hcsharp] at hsome
          exact absurd hsome (by decide)

theorem tops_children (source : Text) : Tops source (parse source).tree.children := by
  rcases children_parse source with hread | hread | ⟨hne, hbroken⟩
  · exact tops_of_read? Grammar.fit_csharp hread
  · exact tops_of_read? Grammar.fit_tolerant hread
  · rw [hbroken]
    exact tops_broken hne

/-- Every parsed document is sound. -/
theorem parse_sound (source : Text) : (parse source).Sound := by
  obtain ⟨⟨start, htiles⟩, hlaid, hfits, hkinds⟩ := tops_children source
  have htree : (parse source).tree = rootOver source (parse source).tree.children := rfl
  generalize (parse source).tree.children = trees at htree htiles hlaid hfits hkinds
  refine ⟨rfl, ?_, ?_⟩
  · rw [htree]
    refine .intro ?_ hlaid
    -- The root spans from its first child to the end of the source.
    cases trees with
    | nil =>
        exact ⟨Nat.le_refl _, Nat.le_refl _, Text.cutsAt_size source, Text.cutsAt_size source,
          fun hne => absurd rfl hne, fun _ first hfirst => absurd hfirst (by
            simp only [rootOver, List.head?_nil, reduceCtorEq, not_false_eq_true]),
          fun _ hkind => absurd rfl hkind⟩
    | cons first rest =>
        obtain ⟨-, hspan, hrest⟩ := htiles
        exact ⟨Nat.le_trans (Nat.le_of_lt hspan) hrest.le, ⟨Nat.le_refl _, hspan, hrest⟩,
          (hlaid first List.mem_cons_self).here.startCut, Text.cutsAt_size source,
          fun hne => absurd rfl hne, fun _ child hchild => by
            rw [← Option.some.inj hchild]; rfl, fun _ hkind => absurd rfl hkind⟩
  · rw [htree]
    exact .intro (Tree.shaped_of_isPlain rfl hkinds (fun hne => absurd rfl hne)
      (fun hkind => absurd hkind (show ¬(Kind.compilationUnit = .identifier
        ∨ Kind.compilationUnit.isExtra = true) by decide)) (fun hne => absurd rfl hne)
      (fun hne => absurd rfl hne) (fun _ _ hkind => absurd rfl hkind) fun child hchild => (hfits child hchild).label)
      fun child hchild => (hfits child hchild).every

end Document

end SharpLint

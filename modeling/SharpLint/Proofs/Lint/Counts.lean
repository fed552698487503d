import SharpLint.Proofs.Lint.Passes

/-!
# Counting the Fixes Applied

Rounds are counted before it is known what they are worth: the fixes of a round
join the count as soon as the round is made, and whether it has changed the
source is asked afterwards. So the count is that of the rounds that change the
source, and of the idle round that ends them, if the limit leaves room for it.

An idle round applies nothing but wraps of lists that are wrapped already. Where
long lines are not looked for it applies none, and the count is exact: it counts
no fix where the source stays as it is.

## Main definitions

* `roundCount`: the number of fixes that one round applies.
* `changedSources`: the sources that rounds change, in their order.
* `effectiveCount`: the number of fixes applied by rounds that change the source.

## Theorems

* `fixRounds_snd`: What rounds count.
* `exists_idle_wraps`: An idle round takes wraps that together change nothing.
* `fixSource_counts_idle`: The count exceeds the effective one by the wraps of
  an idle round.
-/

namespace SharpLint

/-- The number of fixes that one round applies. -/
def roundCount (config : Config) (source : Text) : Nat :=
  (Batch.run source (offers config source)).2

/-- The sources that a number of rounds change, in the order in which the rounds
    come to them. -/
def changedSources (config : Config) (passes : Nat) (source : Text) : List Text :=
  ((List.range passes).map fun n => (fixRound config)^[n] source).filter fun current =>
    fixRound config current ≠ current

/-- The number of fixes applied by the rounds that change the source. -/
def effectiveCount (config : Config) (passes : Nat) (source : Text) : Nat :=
  (changedSources config passes source).foldr (fun current count => roundCount config current + count)
    0

/-! ### Rounds -/

theorem changedSources_succ (config : Config) (passes : Nat) (source : Text) :
    changedSources config (passes + 1) source
      = if fixRound config source = source then changedSources config passes source
        else source :: changedSources config passes (fixRound config source) := by
  have hlater : (fun n => (fixRound config)^[n] source) ∘ Nat.succ
      = fun n => (fixRound config)^[n] (fixRound config source) :=
    funext fun n => Function.iterate_succ_apply (fixRound config) n source
  rw [changedSources, List.range_succ_eq_map, List.map_cons, List.map_map, hlater,
    Function.iterate_zero_apply]
  -- The source itself counts exactly if the first round changes it.
  split
  · next hrest =>
    rw [List.filter_cons_of_neg (by simp only [hrest, ne_eq, not_true, decide_false,
      Bool.false_eq_true, not_false_eq_true]), changedSources]
    simp only [hrest]
  · next hchanged =>
    rw [List.filter_cons_of_pos (by simp only [hchanged, ne_eq, not_false_eq_true, decide_true]),
      changedSources]

/-- No round changes a source at rest. -/
theorem changedSources_of_rest {config : Config} {source : Text}
    (hrest : fixRound config source = source) (passes : Nat) :
    changedSources config passes source = [] := by
  induction passes with
  | zero => rfl
  | succ passes ih => rw [changedSources_succ, if_pos hrest, ih]

theorem effectiveCount_of_rest {config : Config} {source : Text}
    (hrest : fixRound config source = source) (passes : Nat) :
    effectiveCount config passes source = 0 := by
  rw [effectiveCount, changedSources_of_rest hrest]
  rfl

theorem effectiveCount_succ {config : Config} {source : Text}
    (hchanged : fixRound config source ≠ source) (passes : Nat) :
    effectiveCount config (passes + 1) source
      = roundCount config source + effectiveCount config passes (fixRound config source) := by
  rw [effectiveCount, changedSources_succ, if_neg hchanged, List.foldr_cons, effectiveCount]

/-- What rounds count: the fixes of those that change the source, and of the
    idle one that ends them. -/
theorem fixRounds_snd (config : Config) (passes : Nat) (source : Text) (applied : Nat) :
    (fixRounds config passes source applied).2
      = applied + effectiveCount config passes source
        + if settles config passes source = true then
            roundCount config (fixRounds config passes source applied).1
          else 0 := by
  induction passes generalizing source applied with
  | zero => rfl
  | succ passes ih =>
      by_cases hrest : fixRound config source = source
      · -- The round is idle, whether it applies nothing or what changes nothing.
        have hsettles : settles config (passes + 1) source = true := by
          rw [settles, Bool.or_eq_true, decide_eq_true_eq]
          exact .inl hrest
        rw [fixRounds_of_rest hrest, effectiveCount_of_rest hrest, if_pos hsettles, fixRounds_succ,
          Nat.add_zero, roundCount]
        split
        · next hnone =>
          rw [List.isEmpty_iff.1 hnone, Batch.run_nil]
          rfl
        · rw [if_pos (c := (Batch.run source (offers config source)).1 = source) hrest]
      · -- The round goes on as the rest of the rounds do.
        have hsettles : settles config (passes + 1) source
            = settles config passes (fixRound config source) := by
          rw [settles, show (Batch.run source (offers config source)).1 = fixRound config source
            from rfl, decide_eq_false hrest, Bool.false_or]
        have hsome : ¬(offers config source).isEmpty = true := fun hnone =>
          hrest (by rw [fixRound, List.isEmpty_iff.1 hnone, Batch.run_nil])
        have hstep : fixRounds config (passes + 1) source applied
            = fixRounds config passes (fixRound config source)
              (applied + roundCount config source) := by
          rw [fixRounds_succ, if_neg hsome,
            if_neg (c := (Batch.run source (offers config source)).1 = source) hrest, fixRound,
            roundCount]
        rw [hstep, ih, hsettles, effectiveCount_succ hrest, Nat.add_assoc applied]

/-! ### The count of a run -/

/-- Where long lines are not looked for, rounds that end where they began have
    changed nothing. -/
theorem fixRound_of_iterate {config : Config} (hoff : config.rules.checkConstructorLength = false)
    {passes : Nat} {source : Text} (h : (fixRound config)^[passes + 1] source = source) :
    fixRound config source = source := by
  -- A round that changes something takes an equals sign, and no round brings one.
  have hle : ∀ (n : Nat) (current : Text),
      ((fixRound config)^[n] current).count '=' ≤ current.count '=' := by
    intro n
    induction n with
    | zero => exact fun current => Nat.le_refl _
    | succ n ih =>
        intro current
        rw [Function.iterate_succ_apply]
        refine Nat.le_trans (ih _) ?_
        rcases count_run_of_changes hoff current with hrest | hlt
        · exact Nat.le_of_eq (congrArg (List.count '=') hrest)
        · exact Nat.le_of_lt hlt
  refine (count_run_of_changes hoff source).resolve_right fun hlt => ?_
  have hback := hle passes (fixRound config source)
  rw [← Function.iterate_succ_apply, h] at hback
  exact Nat.not_le_of_lt hlt hback

/-- Where long lines are not looked for and the source stays as it is, no round
    changes it. -/
theorem effectiveCount_of_same {config : Config} (hoff : config.rules.checkConstructorLength = false)
    {passes : Nat} {source : Text} (h : (fixRound config)^[passes] source = source) :
    effectiveCount config passes source = 0 := by
  cases passes with
  | zero => rfl
  | succ passes => exact effectiveCount_of_rest (fixRound_of_iterate hoff h) _

/-- The count is the effective one and that of an idle round, which takes wraps
    that together change nothing. -/
theorem exists_idle_wraps (config : Config) (source : Text) :
    ∃ idle : List Fix,
      (fixSource config source).2
          = effectiveCount config config.autofix.maxPasses source + idle.length
        ∧ (Batch.run (fixSource config source).1 idle).1 = (fixSource config source).1
        ∧ (settles config config.autofix.maxPasses source = false → idle = [])
        ∧ ∀ fix ∈ idle, ∃ issue ∈ analyze config (fixSource config source).1,
          issue.rule = .constructorLength ∧ issue.fix = some fix := by
  have hcount := fixRounds_snd config config.autofix.maxPasses source 0
  rw [Nat.zero_add] at hcount
  by_cases hsettles : settles config config.autofix.maxPasses source = true
  · have hrest := run_of_settles 0 hsettles
    obtain ⟨idle, hidle⟩ := Batch.collects_ofFixes
      fun fix (hfix : fix ∈ offers config (fixSource config source).1) => fits_of_mem_offers hfix
    obtain ⟨_, _, -, hrun⟩ := Batch.run_eq hidle
    -- What the idle round takes can be taken alone.
    have halone : Batch.run (fixSource config source).1 idle
        = Batch.run (fixSource config source).1 (offers config (fixSource config source).1) := by
      rw [Batch.run, hidle.alone, Batch.run]
    refine ⟨idle, ?_, (congrArg Prod.fst halone).trans hrest,
      fun hnot => absurd (hsettles.symm.trans hnot) (by decide),
      fun fix hfix => wraps_of_collects hrest hidle hfix⟩
    rw [if_pos hsettles] at hcount
    exact hcount.trans (congrArg _ (congrArg Prod.snd hrun))
  · rw [if_neg hsettles, Nat.add_zero] at hcount
    refine ⟨[], hcount, ?_, fun _ => rfl, fun fix hfix => absurd hfix List.not_mem_nil⟩
    rw [Batch.run_nil]

/-- The number that fixing a source returns is that of the fixes applied by
    rounds that change it, and of the wraps of an idle round, which together
    change nothing. Where long lines are not looked for there are none of these:
    the number is that of the rounds that change the source, and zero where the
    source stays as it is. -/
theorem fixSource_counts_idle (config : Config) (source : Text) :
    (∃ idle : List Fix,
      (fixSource config source).2
          = effectiveCount config config.autofix.maxPasses source + idle.length
        ∧ (Batch.run (fixSource config source).1 idle).1 = (fixSource config source).1
        ∧ (settles config config.autofix.maxPasses source = false → idle = [])
        ∧ ∀ fix ∈ idle, ∃ issue ∈ analyze config (fixSource config source).1,
          issue.rule = .constructorLength ∧ issue.fix = some fix)
      ∧ (config.rules.checkConstructorLength = false →
        (fixSource config source).2 = effectiveCount config config.autofix.maxPasses source
          ∧ ((fixSource config source).1 = source → (fixSource config source).2 = 0)) := by
  refine ⟨exists_idle_wraps config source, fun hoff => ?_⟩
  obtain ⟨idle, hsum, -, -, hwraps⟩ := exists_idle_wraps config source
  -- Idle fixes are wraps, and none are found where the check for long lines is off.
  have hnone : idle = [] := by
    refine List.eq_nil_iff_forall_not_mem.2 fun fix hfix => ?_
    obtain ⟨_, hissue, hrule, -⟩ := hwraps fix hfix
    exact rule_ne_of_mem_analyze hoff hissue hrule
  rw [hnone, List.length_nil, Nat.add_zero] at hsum
  refine ⟨hsum, fun hsame => ?_⟩
  rw [fixSource, fixRounds_fst] at hsame
  rw [hsum, effectiveCount_of_same hoff hsame]

/-- A constructor on a line that stays too long. -/
def longConstructor : Text :=
  "class C \x7b C(int x) \x7b \x7d \x7d".toList

/-- No rule but that of unread fields. -/
def fieldsOnly : Config :=
  { rules := { checkConstructorLength := false } }

set_option maxRecDepth 100000 in
/-- One round wraps the parameter, and the idle one behind it counts the same
    wrap again; the removal of a field counts once. -/
theorem fixSource_counts_idle_of_long :
    ((fixSource (narrow.withPasses 3) longConstructor).2 = 2
        ∧ ∃ idle : List Fix,
          (fixSource (narrow.withPasses 3) longConstructor).2
            = effectiveCount (narrow.withPasses 3) 3 longConstructor + idle.length)
      ∧ fieldsOnly.rules.checkConstructorLength = false
      ∧ (fixSource fieldsOnly unreadSource).2
        = effectiveCount fieldsOnly fieldsOnly.autofix.maxPasses unreadSource := by
  obtain ⟨⟨idle, hidle, -⟩, -⟩ := fixSource_counts_idle (narrow.withPasses 3) longConstructor
  exact ⟨⟨by decide +kernel, idle, hidle⟩, rfl,
    ((fixSource_counts_idle fieldsOnly unreadSource).2 rfl).1⟩

/-- A constructor on a line that stays too long, its parameter wrapped. -/
def wrappedConstructor : Text :=
  "class C \x7b C(\n              int x) \x7b \x7d \x7d".toList

set_option maxRecDepth 100000 in
/-- The wrap of a list that is wrapped already counts as a fix, though no round
    changes the source. -/
theorem idle_wrap_counts :
    ¬∀ (config : Config) (source : Text),
      (fixSource config source).2 = effectiveCount config config.autofix.maxPasses source
        ∧ ((fixSource config source).1 = source → (fixSource config source).2 = 0) := by
  intro h
  have hrun : fixSource narrow wrappedConstructor = (wrappedConstructor, 1) := by decide +kernel
  have hcount := (h narrow wrappedConstructor).2
  rw [hrun] at hcount
  exact absurd (hcount rfl) (by decide)

end SharpLint

import Mathlib.Logic.Function.Iterate
import SharpLint.Proofs.Lint.Rounds

/-!
# Rounds as Iteration

Fixing a source stops early, where nothing is left to fix or where a round makes
no progress. Either way a further round leaves the source as it is, so stopping
early is no different from making all rounds that are allowed. What fixing
yields is one round, iterated; the count of fixes, which goes along, has no say
in it.

Iterations compose, so it does not matter whether rounds are made in one run or
in several, and where a run has stopped early, no later run changes anything.

## Main definitions

* `fixRound`: the source after one round.
* `Config.withPasses`: the configuration with another limit of rounds.

## Theorems

* `fixRounds_fst`: Rounds that stop early are one round, iterated.
* `fixRound_of_settles`: Rounds that stop early stop at rest.
* `fixSource_again`: At rest, fixing again changes nothing.
* `fixSource_passes`: Runs compose, and a run that stopped early was the last
  that changes anything.
-/

namespace SharpLint

/-- The source after one round of analysis and fixing. -/
def fixRound (config : Config) (source : Text) : Text :=
  (Batch.run source (offers config source)).1

/-- The source after rounds that stop early is that after all of them. -/
theorem fixRounds_fst (config : Config) (passes : Nat) (source : Text) (applied : Nat) :
    (fixRounds config passes source applied).1 = (fixRound config)^[passes] source := by
  induction passes generalizing source applied with
  | zero => rfl
  | succ passes ih =>
      rw [fixRounds_succ]
      -- At either way out the round leaves the source, so the rounds left do too.
      split
      · next hnone =>
        have hrest : fixRound config source = source := by
          rw [fixRound, List.isEmpty_iff.1 hnone, Batch.run_nil]
        rw [Function.iterate_fixed hrest]
      · split
        · next hsame =>
          have hrest : fixRound config source = source := hsame
          rw [Function.iterate_fixed hrest]
        · rw [ih, Function.iterate_succ_apply, fixRound]

/-- A source that a round leaves as it is stays through all rounds. -/
theorem fixRounds_of_rest {config : Config} {source : Text}
    (hrest : fixRound config source = source) (passes applied : Nat) :
    (fixRounds config passes source applied).1 = source := by
  rw [fixRounds_fst, Function.iterate_fixed hrest]

/-- Rounds that stop early leave a source that a further round leaves. -/
theorem fixRound_of_settles {config : Config} {passes : Nat} {source : Text}
    (h : settles config passes source = true) :
    fixRound config ((fixRound config)^[passes] source) = (fixRound config)^[passes] source := by
  have hrest := run_of_settles 0 h
  rw [fixRounds_fst] at hrest
  exact hrest

/-- At rest, fixing again changes nothing. -/
theorem fixSource_again {config : Config} {source : Text}
    (h : settles config config.autofix.maxPasses source = true) :
    (fixSource config (fixSource config source).1).1 = (fixSource config source).1 := by
  simp only [fixSource, fixRounds_fst]
  exact Function.iterate_fixed (fixRound_of_settles h) _

/-! ### Limits -/

/-- The configuration with another limit of rounds. -/
def Config.withPasses (config : Config) (passes : Nat) : Config :=
  { config with autofix := { config.autofix with maxPasses := passes } }

/-- The limit has no say in what a round does. -/
theorem fixRound_withPasses (config : Config) (passes : Nat) :
    fixRound (config.withPasses passes) = fixRound config :=
  rfl

theorem fixSource_withPasses (config : Config) (passes : Nat) (source : Text) :
    (fixSource (config.withPasses passes) source).1 = (fixRound config)^[passes] source := by
  rw [fixSource, fixRounds_fst, fixRound_withPasses]
  rfl

/-- A run of `n + m` rounds yields what a run of `m` rounds yields from where a
    run of `n` rounds ends. Where a run has stopped before its limit, no further
    run changes the text. -/
theorem fixSource_passes (config : Config) (source : Text) (n m : Nat) :
    (fixSource (config.withPasses (n + m)) source).1
        = (fixSource (config.withPasses m) (fixSource (config.withPasses n) source).1).1
      ∧ (settles config n source = true →
        (fixSource (config.withPasses m) (fixSource (config.withPasses n) source).1).1
          = (fixSource (config.withPasses n) source).1) := by
  simp only [fixSource_withPasses]
  refine ⟨?_, fun hsettles => ?_⟩
  · rw [Nat.add_comm, Function.iterate_add_apply]
  · exact Function.iterate_fixed (fixRound_of_settles hsettles) m

set_option maxRecDepth 100000 in
theorem fixSource_passes_unread :
    settles {} 2 unreadSource = true
      ∧ (fixSource (Config.withPasses {} 5)
          (fixSource (Config.withPasses {} 2) unreadSource).1).1
        = (fixSource (Config.withPasses {} 2) unreadSource).1 := by
  have hsettles : settles {} 2 unreadSource = true := by decide +kernel
  exact ⟨hsettles, (fixSource_passes {} unreadSource 2 5).2 hsettles⟩

end SharpLint

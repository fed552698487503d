import SharpLint.Syntax.Document

/-!
# Derivations of Readings

The reader of forms is bounded: it repeats at most so often and nests calls at
most so deep. The bounds only make readings fail, so nothing that is said about
readings needs them. `Reads` is the reading without the bounds, one rule for
each thing that a form may do, and every reading has a derivation in it. An
invariant of readings is then one induction with one case for each rule.

A derivation says nothing about the forms that were tried first and did not
fit: it reads what the form allows, not only what the reader chooses.

## Main definitions

* `Grammar.Reads`: a form may read these trees between these cursors.

## Theorems

* `Grammar.reads_of_formRead`: A reading of a form has a derivation.
* `Grammar.reads_of_read`: A reading of a phrase has a derivation.
-/

namespace SharpLint

namespace Grammar

/-- The form may read the trees between the two cursors. -/
inductive Reads (grammar : Grammar) : Form → Cursor → List Tree → Cursor → Prop
  | nothing {cursor : Cursor} : Reads grammar .nothing cursor [] cursor
  | token {kind : Kind} {lexeme : Lexeme} {gap : Gap} {limit : Nat} {cursor behind after : Cursor}
      {tree : Tree} {extras : List Tree} (fits : lexeme.length cursor.rest ≠ 0)
      (take : cursor.take kind (lexeme.length cursor.rest) = (tree, behind))
      (skip : gap.skip limit { behind with stop := behind.offset } = (extras, after)) :
      Reads grammar (.token kind lexeme gap) cursor (tree :: extras) after
  | ahead {form : Form} {cursor : Cursor} : Reads grammar (.ahead form) cursor [] cursor
  | unless {form : Form} {cursor : Cursor} : Reads grammar (.unless form) cursor [] cursor
  | glued {cursor : Cursor} : Reads grammar .glued cursor [] cursor
  | seq {first second : Form} {cursor middle after : Cursor} {trees more : List Tree}
      (head : Reads grammar first cursor trees middle)
      (tail : Reads grammar second middle more after) :
      Reads grammar (.seq first second) cursor (trees ++ more) after
  | altFirst {first second : Form} {cursor after : Cursor} {trees : List Tree}
      (read : Reads grammar first cursor trees after) :
      Reads grammar (.alt first second) cursor trees after
  | altSecond {first second : Form} {cursor after : Cursor} {trees : List Tree}
      (read : Reads grammar second cursor trees after) :
      Reads grammar (.alt first second) cursor trees after
  | manyNone {form : Form} {cursor : Cursor} : Reads grammar (.many form) cursor [] cursor
  | manyMore {form : Form} {cursor middle after : Cursor} {trees more : List Tree}
      (head : Reads grammar form cursor trees middle)
      (tail : Reads grammar (.many form) middle more after) :
      Reads grammar (.many form) cursor (trees ++ more) after
  | node {kind : Kind} {form : Form} {cursor after : Cursor} {trees enclosed : List Tree}
      (read : Reads grammar form cursor trees after)
      (encloses : Form.enclose kind trees = some enclosed) :
      Reads grammar (.node kind form) cursor enclosed after
  | label {part : Label} {form : Form} {cursor after : Cursor} {trees : List Tree}
      (read : Reads grammar form cursor trees after) :
      Reads grammar (.label part form) cursor (Form.relabel part trees) after
  | call {phrase : Phrase} {cursor after : Cursor} {trees : List Tree}
      (read : Reads grammar (grammar phrase) cursor trees after) :
      Reads grammar (.call phrase) cursor trees after
  | growBase {base step : Form} {cursor after : Cursor} {trees : List Tree}
      (read : Reads grammar base cursor trees after) :
      Reads grammar (.grow base step) cursor trees after
  | growStep {base step : Form} {cursor middle after : Cursor} {trees grown : List Tree}
      (head : Reads grammar (.grow base step) cursor trees middle)
      (tail : Reads grammar step middle grown after) :
      Reads grammar (.grow base step) cursor (Form.adopt trees grown) after

variable {grammar : Grammar}

/-- What is read by repeating a form has a derivation, if each round has. -/
theorem reads_iterate {form : Form} {step : Cursor → Form.Reading}
    (hstep : ∀ {cursor trees after}, step cursor = some (trees, after) →
      Reads grammar form cursor trees after) (limit : Nat) (cursor : Cursor) :
    Reads grammar (.many form) cursor (Form.iterate step limit cursor).1
      (Form.iterate step limit cursor).2 := by
  induction limit generalizing cursor with
  | zero => exact .manyNone
  | succ limit ih =>
      simp only [Form.iterate]
      split
      · exact .manyNone
      · next trees after h => exact .manyMore (hstep h) (ih after)

/-- What grows over a base has a derivation, if the base and each step have. -/
theorem reads_growFrom {base form : Form} {step : Cursor → Form.Reading}
    (hstep : ∀ {cursor trees after}, step cursor = some (trees, after) →
      Reads grammar form cursor trees after) (limit : Nat) {start cursor : Cursor}
    {trees : List Tree} (h : Reads grammar (.grow base form) start trees cursor) :
    Reads grammar (.grow base form) start (Form.growFrom step limit trees cursor).1
      (Form.growFrom step limit trees cursor).2 := by
  induction limit generalizing cursor trees with
  | zero => exact h
  | succ limit ih =>
      simp only [Form.growFrom]
      split
      · exact h
      · next grown after hgrown => exact ih (.growStep h (hstep hgrown))

/-- A reading of a form has a derivation, if the readings of phrases have. -/
theorem reads_of_formRead {call : Phrase → Cursor → Form.Reading} {limit : Nat}
    (hcall : ∀ {phrase cursor trees after}, call phrase cursor = some (trees, after) →
      Reads grammar (.call phrase) cursor trees after) {form : Form} {cursor after : Cursor}
    {trees : List Tree} (h : Form.read call limit form cursor = some (trees, after)) :
    Reads grammar form cursor trees after := by
  -- On the form: each reading of its parts has a derivation by induction.
  induction form generalizing cursor trees after with
  | nothing =>
      simp only [Form.read, Option.some.injEq, Prod.mk.injEq] at h
      obtain ⟨rfl, rfl⟩ := h
      exact .nothing
  | token kind lexeme gap =>
      simp only [Form.read] at h
      split at h
      · exact absurd h (by simp only [reduceCtorEq, not_false_eq_true])
      · next hne =>
        simp only [Option.some.injEq, Prod.mk.injEq] at h
        obtain ⟨rfl, rfl⟩ := h
        exact .token hne rfl rfl
  | ahead form ih =>
      simp only [Form.read] at h
      split at h
      · simp only [Option.some.injEq, Prod.mk.injEq] at h
        obtain ⟨rfl, rfl⟩ := h
        exact .ahead
      · exact absurd h (by simp only [reduceCtorEq, not_false_eq_true])
  | «unless» form ih =>
      simp only [Form.read] at h
      split at h
      · exact absurd h (by simp only [reduceCtorEq, not_false_eq_true])
      · simp only [Option.some.injEq, Prod.mk.injEq] at h
        obtain ⟨rfl, rfl⟩ := h
        exact .unless
  | glued =>
      simp only [Form.read] at h
      split at h
      · simp only [Option.some.injEq, Prod.mk.injEq] at h
        obtain ⟨rfl, rfl⟩ := h
        exact .glued
      · exact absurd h (by simp only [reduceCtorEq, not_false_eq_true])
  | seq first second ihFirst ihSecond =>
      simp only [Form.read] at h
      split at h
      · exact absurd h (by simp only [reduceCtorEq, not_false_eq_true])
      · next trees middle hfirst =>
        split at h
        · exact absurd h (by simp only [reduceCtorEq, not_false_eq_true])
        · next more after' hsecond =>
          simp only [Option.some.injEq, Prod.mk.injEq] at h
          obtain ⟨rfl, rfl⟩ := h
          exact .seq (ihFirst hfirst) (ihSecond hsecond)
  | alt first second ihFirst ihSecond =>
      simp only [Form.read] at h
      split at h
      · next reading hfirst =>
        rw [h] at hfirst
        exact .altFirst (ihFirst hfirst)
      · exact .altSecond (ihSecond h)
  | many form ih =>
      simp only [Form.read, Option.some.injEq] at h
      have hmany := reads_iterate ih limit cursor
      rwa [h] at hmany
  | node kind form ih =>
      simp only [Form.read] at h
      split at h
      · exact absurd h (by simp only [reduceCtorEq, not_false_eq_true])
      · next read after' hread =>
        obtain ⟨enclosed, henclosed, heq⟩ := Option.map_eq_some_iff.1 h
        simp only [Prod.mk.injEq] at heq
        obtain ⟨rfl, rfl⟩ := heq
        exact .node (ih hread) henclosed
  | label part form ih =>
      simp only [Form.read] at h
      split at h
      · exact absurd h (by simp only [reduceCtorEq, not_false_eq_true])
      · next read after' hread =>
        simp only [Option.some.injEq, Prod.mk.injEq] at h
        obtain ⟨rfl, rfl⟩ := h
        exact .label (ih hread)
  | call phrase => exact hcall h
  | grow base step ihBase ihStep =>
      simp only [Form.read] at h
      split at h
      · exact absurd h (by simp only [reduceCtorEq, not_false_eq_true])
      · next read after' hread =>
        simp only [Option.some.injEq] at h
        have hgrow := reads_growFrom ihStep limit (.growBase (ihBase hread))
        rwa [h] at hgrow

/-- A reading of a phrase has a derivation. -/
theorem reads_of_read {limit depth : Nat} {phrase : Phrase} {cursor after : Cursor}
    {trees : List Tree} (h : grammar.read limit depth phrase cursor = some (trees, after)) :
    Reads grammar (.call phrase) cursor trees after := by
  induction depth generalizing phrase cursor trees after with
  | zero => exact absurd h (by simp only [Grammar.read, reduceCtorEq, not_false_eq_true])
  | succ depth ih => exact .call (reads_of_formRead ih h)

end Grammar

end SharpLint

import Mathlib.Logic.Relation
import SharpLint.Files.Disk

/-!
# Work in Any Order

Many sources go through one job. Workers take sources that wait, in whatever
order, and what comes out of the job is gathered in whatever order and at
whatever place; a fault is only counted. A single worker takes the sources one
at a time, in the order in which they wait.

However the work goes on, what is gathered in the end is what the job makes of
the sources: nothing is lost, nothing is gathered twice, and only the order is
left open.

## Main definitions

* `Work`: sources on their way through a job.
* `Work.Step`: what may happen next.
* `Work.Runs`: all the work is done, with what is gathered in the end.
* `Work.Ends`: the work can be brought to its end.

## Theorems

* `Work.Step.load_lt`: Each step leaves less to do.
* `Work.ends`: Whatever has been done, the work can be brought to its end.
* `Work.Step.results_perm`: No step changes what the work yields.
* `Work.Runs.spec`: What is gathered in the end.
* `Work.runs_in_order`: One worker does all the work.
-/

namespace SharpLint

/-- What may come out of a job for one source: a fault, nothing, or a result. -/
abbrev JobOutcome (ρ : Type) := Except DiskFault (Option ρ)

/-- Sources on their way through a job. -/
structure Work (ρ : Type) where
  waiting : List String
  /-- What has come out of the job and is not gathered yet. -/
  running : List (JobOutcome ρ) := []
  gathered : List ρ := []
  /-- The number of faults. -/
  failed : Nat := 0

namespace Work

variable {ρ : Type} {job : String → JobOutcome ρ} {parallel : Bool} {work next : Work ρ}

/-- One step of the work. Without `parallel` only the first source that waits
    is taken, and only when nothing is running. -/
inductive Step (job : String → JobOutcome ρ) (parallel : Bool) : Work ρ → Work ρ → Prop
  | take {before after : List String} {path : String} {running : List (JobOutcome ρ)}
      {gathered : List ρ} {failed : Nat}
      (alone : parallel = false → before = [] ∧ running = []) :
      Step job parallel ⟨before ++ path :: after, running, gathered, failed⟩
        ⟨before ++ after, job path :: running, gathered, failed⟩
  | gather {waiting : List String} {before after : List (JobOutcome ρ)} {result : ρ}
      {left right : List ρ} {failed : Nat} :
      Step job parallel ⟨waiting, before ++ .ok (some result) :: after, left ++ right, failed⟩
        ⟨waiting, before ++ after, left ++ result :: right, failed⟩
  | pass {waiting : List String} {before after : List (JobOutcome ρ)} {gathered : List ρ}
      {failed : Nat} :
      Step job parallel ⟨waiting, before ++ .ok none :: after, gathered, failed⟩
        ⟨waiting, before ++ after, gathered, failed⟩
  | fail {waiting : List String} {before after : List (JobOutcome ρ)} {gathered : List ρ}
      {failed : Nat} {fault : DiskFault} :
      Step job parallel ⟨waiting, before ++ .error fault :: after, gathered, failed⟩
        ⟨waiting, before ++ after, gathered, failed + 1⟩

/-- All the work is done, and what is gathered and counted in the end. -/
def Runs (job : String → JobOutcome ρ) (parallel : Bool) (paths : List String)
    (gathered : List ρ) (failed : Nat) : Prop :=
  Relation.ReflTransGen (Step job parallel) ⟨paths, [], [], 0⟩ ⟨[], [], gathered, failed⟩

/-! ### The work comes to an end -/

/-- How many steps are left. -/
def load (work : Work ρ) : Nat :=
  2 * work.waiting.length + work.running.length

/-- Each step leaves less to do. -/
theorem Step.load_lt (h : Step job parallel work next) : next.load < work.load := by
  cases h <;> simp only [load, List.length_append, List.length_cons] <;> omega

/-- Work that is not done goes on. -/
theorem exists_step (job : String → JobOutcome ρ) (parallel : Bool) (hload : work.load ≠ 0) :
    ∃ next, Step job parallel work next := by
  obtain ⟨waiting, running, gathered, failed⟩ := work
  -- A running job has come to something, and where none runs the next path is taken.
  cases running with
  | cons outcome running =>
      match outcome with
      | .ok (some result) =>
          exact ⟨_, (Step.gather : Step job parallel
            ⟨waiting, [] ++ .ok (some result) :: running, [] ++ gathered, failed⟩ _)⟩
      | .ok none =>
          exact ⟨_, (Step.pass : Step job parallel
            ⟨waiting, [] ++ .ok none :: running, gathered, failed⟩ _)⟩
      | .error fault =>
          exact ⟨_, (Step.fail : Step job parallel
            ⟨waiting, [] ++ .error fault :: running, gathered, failed⟩ _)⟩
  | nil =>
      cases waiting with
      | cons path waiting =>
          exact ⟨_, (Step.take fun _ => ⟨rfl, rfl⟩ : Step job parallel
            ⟨[] ++ path :: waiting, [], gathered, failed⟩ _)⟩
      | nil => exact absurd rfl hload

/-- The work can be brought to its end. -/
def Ends (job : String → JobOutcome ρ) (parallel : Bool) (work : Work ρ) : Prop :=
  ∃ gathered failed, Relation.ReflTransGen (Step job parallel) work ⟨[], [], gathered, failed⟩

/-- Whatever has been done, the work can be brought to its end. -/
theorem ends (job : String → JobOutcome ρ) (parallel : Bool) (work : Work ρ) :
    work.Ends job parallel := by
  induction hload : work.load using Nat.strongRecOn generalizing work with
  | ind load ih =>
      by_cases hdone : work.load = 0
      · obtain ⟨waiting, running, gathered, failed⟩ := work
        have hempty : waiting = [] ∧ running = [] := by
          simp only [Work.load] at hdone
          exact ⟨List.eq_nil_of_length_eq_zero (by omega), List.eq_nil_of_length_eq_zero (by omega)⟩
        rw [hempty.1, hempty.2]
        exact ⟨gathered, failed, .refl⟩
      · obtain ⟨next, hstep⟩ := exists_step job parallel hdone
        obtain ⟨gathered, failed, hsteps⟩ := ih next.load (hload ▸ hstep.load_lt) next rfl
        exact ⟨gathered, failed, .head hstep hsteps⟩

/-! ### What the work yields -/

/-- The result in what comes out of a job, if there is one. -/
def result? (outcome : JobOutcome ρ) : Option ρ :=
  outcome.toOption.join

/-- Whether a fault comes out of a job. -/
def isFault (outcome : JobOutcome ρ) : Bool :=
  !outcome.toBool

/-- What has come out of the job, or will, and is not gathered yet. -/
def pending (job : String → JobOutcome ρ) (work : Work ρ) : List (JobOutcome ρ) :=
  work.running ++ work.waiting.map job

/-- What is gathered in the end if the work goes on. -/
def results (job : String → JobOutcome ρ) (work : Work ρ) : List ρ :=
  work.gathered ++ (work.pending job).filterMap result?

/-- The number of faults in the end if the work goes on. -/
def faults (job : String → JobOutcome ρ) (work : Work ρ) : Nat :=
  work.failed + (work.pending job).countP isFault

/-- No step changes what the work yields, but for the order. -/
theorem Step.results_perm (h : Step job parallel work next) :
    (next.results job).Perm (work.results job) := by
  cases h with
  | @take before after path running gathered failed _ =>
      simp only [results, pending, List.map_append, List.map_cons]
      refine List.Perm.append_left gathered (List.Perm.filterMap result? ?_)
      rw [← List.append_assoc, ← List.append_assoc]
      exact List.perm_middle.symm
  | @gather waiting before after result left right failed =>
      simp only [results, pending, List.filterMap_append, List.append_assoc, List.cons_append,
        List.filterMap_cons, result?, Except.toOption, Option.join_some]
      refine List.Perm.append_left left ?_
      rw [← List.append_assoc, ← List.append_assoc right]
      exact List.perm_middle.symm
  | pass =>
      simp only [results, pending, List.filterMap_append, List.filterMap_cons, result?,
        Except.toOption, Option.join_some]
      exact List.Perm.refl _
  | fail =>
      simp only [results, pending, List.filterMap_append, List.filterMap_cons, result?,
        Except.toOption, Option.join_none]
      exact List.Perm.refl _

/-- No step changes the number of faults. -/
theorem Step.faults_eq (h : Step job parallel work next) : next.faults job = work.faults job := by
  cases h <;>
    simp only [faults, pending, List.map_append, List.map_cons, List.countP_append,
      List.countP_cons, List.append_assoc, List.cons_append, isFault, Except.toBool] <;>
    grind

/-! ### All the work -/

variable {paths : List String} {gathered : List ρ} {failed : Nat}

/-- What is gathered and counted in the end is what the job makes of the
    sources. -/
theorem Runs.spec (h : Runs job parallel paths gathered failed) :
    gathered.Perm (paths.filterMap fun path => result? (job path))
      ∧ failed = paths.countP fun path => isFault (job path) := by
  have hrun : ∀ work, Relation.ReflTransGen (Step job parallel) ⟨paths, [], [], 0⟩ work →
      (work.results job).Perm (results job ⟨paths, [], [], 0⟩)
        ∧ work.faults job = faults job ⟨paths, [], [], 0⟩ := by
    intro work hsteps
    induction hsteps with
    | refl => exact ⟨List.Perm.refl _, rfl⟩
    | tail _ hstep ih => exact ⟨hstep.results_perm.trans ih.1, hstep.faults_eq.trans ih.2⟩
  obtain ⟨hresults, hfaults⟩ := hrun _ h
  simp only [results, faults, pending, List.nil_append, List.map_nil, List.append_nil,
    List.filterMap_nil, List.filterMap_map, List.countP_map, List.countP_nil, Nat.add_zero,
    Nat.zero_add] at hresults hfaults
  exact ⟨hresults, hfaults⟩

/-- One worker does all the work, one source after the other. -/
theorem runs_in_order (job : String → JobOutcome ρ) (parallel : Bool) (paths : List String) :
    Runs job parallel paths (paths.filterMap fun path => result? (job path))
      (paths.countP fun path => isFault (job path)) := by
  -- The results and faults that are gathered so far go along, for the steps to start anywhere.
  have hrest : ∀ (paths : List String) (gathered : List ρ) (failed : Nat),
      Relation.ReflTransGen (Step job parallel) ⟨paths, [], gathered, failed⟩
        ⟨[], [], gathered ++ paths.filterMap (fun path => result? (job path)),
          failed + paths.countP fun path => isFault (job path)⟩ := by
    intro paths
    induction paths with
    | nil =>
        intro gathered failed
        rw [List.filterMap_nil, List.append_nil, List.countP_nil]
        exact .refl
    | cons path paths ih =>
        intro gathered failed
        -- The only worker takes the first source, and what comes of it is gathered at once.
        have htake : Step job parallel ⟨path :: paths, [], gathered, failed⟩
            ⟨paths, [job path], gathered, failed⟩ :=
          (Step.take fun _ => ⟨rfl, rfl⟩ : Step job parallel
            ⟨[] ++ path :: paths, [], gathered, failed⟩ _)
        refine .head htake ?_
        rw [List.filterMap_cons, List.countP_cons]
        match job path with
        | .ok (some result) =>
            have hgather : Step job parallel ⟨paths, [.ok (some result)], gathered, failed⟩
                ⟨paths, [], gathered ++ [result], failed⟩ := by
              have := (Step.gather : Step job parallel
                ⟨paths, [] ++ .ok (some result) :: [], gathered ++ [], failed⟩ _)
              rwa [List.append_nil] at this
            have hmore := ih (gathered ++ [result]) failed
            rw [List.append_assoc, List.singleton_append] at hmore
            exact .head hgather hmore
        | .ok none =>
            exact .head (Step.pass : Step job parallel
              ⟨paths, [] ++ .ok none :: [], gathered, failed⟩ _) (ih gathered failed)
        | .error fault =>
            have hmore := ih gathered (failed + 1)
            rw [Nat.add_assoc, Nat.add_comm 1] at hmore
            exact .head (Step.fail : Step job parallel
              ⟨paths, [] ++ .error fault :: [], gathered, failed⟩ _) hmore
  have h := hrest paths [] 0
  rwa [List.nil_append, Nat.zero_add] at h

end Work

end SharpLint

import Mathlib.Algebra.GroupWithZero.Nat
import SharpLint.Proofs.Edit.Splice
import SharpLint.Proofs.Files.Disk
import SharpLint.Proofs.Lint.Reports
import SharpLint.Proofs.Lint.Schedule
import SharpLint.Proofs.Walk.Rewrites
import SharpLint.Report.Project

/-!
# Reports Agree

A report about many sources is made by workers: the sources are found, analysed
and fixed in whatever order, and what comes out is gathered in whatever order.
All reports that can be made of one disk agree, and so do those that are made
with other choices of how to work and how to read: they have the same issues,
the same counts and the same new contents, and they are printed alike.

## Main definitions

* `Disk.Reports`: the reports that can be made.
* `ProjectReport.Agrees`: two reports say the same.

## Theorems

* `Disk.reports_analyzeProject`: A report that can be made.
* `Disk.Reports.agrees`: All reports that can be made agree.
* `ProjectReport.sum_severityCounts`: The counts of a report add up.
* `Disk.Alike.reports`: Alike disks have the same reports.
-/

namespace SharpLint

open Disk

/-! ### Reports that can be made -/

/-- The sources that may be fixed. -/
def ProjectReport.fixable (report : ProjectReport) : List String :=
  (report.found.filter fun source => source.2.any fun issue => issue.fix.isSome).map Prod.fst

namespace Disk

/-- Analyses a source. -/
def analysisJob (disk : Disk) (config : Config) (path : String) :
    JobOutcome (String × List Issue) :=
  (disk.issuesAt config path).map fun issues => if issues.isEmpty then none else some (path, issues)

/-- Reads a source again and fixes it. -/
def fixJob (disk : Disk) (config : Config) (path : String) : JobOutcome FixedSource :=
  (disk.sourceAt config path).map fun source =>
    let (text, applied) := fixSource config source.text
    if text = source.text then none else some ⟨path, source.content text, applied⟩

/-- What the sources that may be fixed become can be what the report says. -/
def Fixes (disk : Disk) (config : Config) (report : ProjectReport) : Prop :=
  ∃ paths made passed, paths.Perm report.fixable
    ∧ Work.Runs (disk.fixJob config) config.performance.parallelAnalysis paths made passed
    ∧ report.fixed = if made.isEmpty then none else some made

/-- The report can be made of the sources that a path stands for: they are
    found in some order, and the work on them is done in some order. -/
structure Reports (disk : Disk) (config : Config) (fixing : Bool) (target : String)
    (report : ProjectReport) : Prop where
  analysed : ∃ paths, paths.Perm (disk.sources config target) ∧ report.fileCount = paths.length
    ∧ Work.Runs (disk.analysisJob config) config.performance.parallelAnalysis paths report.found
        report.failed
  fixed : if fixing && config.autofix.enabled then disk.Fixes config report
    else report.fixed = none

variable {disk other : Disk} {config : Config} {target : String} {fixing : Bool}
  {report report' : ProjectReport}

theorem result?_analysisJob (path : String) :
    Work.result? (disk.analysisJob config path)
      = (disk.reportedAt? config path).map (path, ·) := by
  rw [analysisJob, reportedAt?]
  rcases disk.issuesAt config path with fault | issues
  · rfl
  · cases issues <;> rfl

theorem isFault_analysisJob (path : String) :
    Work.isFault (disk.analysisJob config path) = !(disk.issuesAt config path).toBool := by
  rw [analysisJob, Work.isFault]
  cases disk.issuesAt config path <;> rfl

theorem result?_fixJob (path : String) :
    Work.result? (disk.fixJob config path) = disk.fixedAt? config path := by
  rw [fixJob, fixedAt?]
  cases disk.sourceAt config path <;> rfl

/-- The report that is made of the sources in their order can be made. -/
theorem reports_analyzeProject (disk : Disk) (config : Config) (fixing : Bool) (target : String) :
    disk.Reports config fixing target (disk.analyzeProject config fixing target) := by
  -- Both the issues and the faults are those of the sources, taken in their order.
  have hfound : (disk.analyzeProject config fixing target).found
      = (disk.sources config target).filterMap fun path =>
        Work.result? (disk.analysisJob config path) := by
    simp only [result?_analysisJob]
    exact disk.found_eq config _
  have hfailed : (disk.analyzeProject config fixing target).failed
      = (disk.sources config target).countP fun path =>
        Work.isFault (disk.analysisJob config path) := by
    simp only [isFault_analysisJob]
    exact disk.failed_eq config _
  refine ⟨⟨_, .refl _, rfl, ?_⟩, ?_⟩
  · rw [hfound, hfailed]
    exact Work.runs_in_order _ _ _
  · split
    · next henabled =>
      refine ⟨_, _, _, .refl _, Work.runs_in_order _ _ _, ?_⟩
      -- The fixes are made of the sources in the order in which they were found.
      have hmade : (disk.analyzeProject config fixing target).fixable.filterMap
          (fun path => Work.result? (disk.fixJob config path))
            = disk.fixesOf config (disk.analyzeProject config fixing target).found := by
        simp only [result?_fixJob, ProjectReport.fixable, fixesOf, List.filterMap_map,
          List.filterMap_filter]
        rfl
      rw [hmade]
      simp only [analyzeProject, henabled, if_true]
    · next hdisabled =>
      simp only [analyzeProject, Bool.not_eq_true] at hdisabled ⊢
      rw [hdisabled]
      rfl

/-! ### What a report that can be made says -/

namespace Reports

theorem fileCount_eq (h : disk.Reports config fixing target report) :
    report.fileCount = (disk.sources config target).length := by
  obtain ⟨paths, hpaths, hcount, -⟩ := h.analysed
  exact hcount.trans hpaths.length_eq

theorem found_perm (h : disk.Reports config fixing target report) :
    report.found.Perm ((disk.sources config target).filterMap fun path =>
      (disk.reportedAt? config path).map (path, ·)) := by
  obtain ⟨paths, hpaths, -, hruns⟩ := h.analysed
  have hfound := hruns.spec.1
  simp only [result?_analysisJob] at hfound
  exact hfound.trans (hpaths.filterMap _)

theorem failed_eq (h : disk.Reports config fixing target report) :
    report.failed = (disk.sources config target).countP fun path =>
      !(disk.issuesAt config path).toBool := by
  obtain ⟨paths, hpaths, -, hruns⟩ := h.analysed
  have hfailed := hruns.spec.2
  simp only [isFault_analysisJob] at hfailed
  exact hfailed.trans (hpaths.countP_eq _)

/-- What is said of a source is what is found in it. -/
theorem reportedAt?_of_mem (h : disk.Reports config fixing target report)
    {source : String × List Issue} (hsource : source ∈ report.found) :
    disk.reportedAt? config source.1 = some source.2 := by
  obtain ⟨path, -, hpath⟩ := List.mem_filterMap.1 (h.found_perm.mem_iff.1 hsource)
  obtain ⟨issues, hissues, rfl⟩ := Option.map_eq_some_iff.1 hpath
  exact hissues

theorem fixed_eq (h : disk.Reports config fixing target report)
    (henabled : (fixing && config.autofix.enabled) = true) :
    ∃ made, made.Perm (report.fixable.filterMap (disk.fixedAt? config))
      ∧ report.fixed = if made.isEmpty then none else some made := by
  have hfixed := h.fixed
  rw [if_pos henabled] at hfixed
  obtain ⟨paths, made, passed, hpaths, hruns, hmade⟩ := hfixed
  have hresults := hruns.spec.1
  simp only [result?_fixJob] at hresults
  exact ⟨made, hresults.trans (hpaths.filterMap _), hmade⟩

/-- What a source becomes is what fixing makes of it. -/
theorem fixedAt?_of_mem (h : disk.Reports config fixing target report) {source : FixedSource}
    (hsource : source ∈ report.fixed.getD []) :
    disk.fixedAt? config source.path = some source := by
  cases henabled : fixing && config.autofix.enabled with
  | false =>
      have hfixed := h.fixed
      rw [henabled, if_neg Bool.false_ne_true] at hfixed
      rw [hfixed] at hsource
      exact absurd hsource List.not_mem_nil
  | true =>
      obtain ⟨made, hperm, hmade⟩ := h.fixed_eq henabled
      have hmem : source ∈ made := by
        rw [hmade] at hsource
        split at hsource
        · exact absurd hsource List.not_mem_nil
        · exact hsource
      -- It is what fixing makes of some path, and carries that path.
      obtain ⟨path, -, hpath⟩ := List.mem_filterMap.1 (hperm.mem_iff.1 hmem)
      have hpath' := hpath
      rw [fixedAt?] at hpath'
      split at hpath'
      · exact absurd hpath' (by simp only [reduceCtorEq, not_false_eq_true])
      · simp only at hpath'
        split at hpath'
        · exact absurd hpath' (by simp only [reduceCtorEq, not_false_eq_true])
        · rw [Option.some.injEq] at hpath'
          rw [← hpath'] at hpath ⊢
          exact hpath

end Reports

/-! ### How the work is done and files are read -/

section Performance

variable (disk : Disk) (config : Config) (performance : ReadChoice) (path : String)

theorem toOption_sourceAt : (disk.sourceAt { config with performance } path).toOption
    = (disk.sourceAt config path).toOption :=
  disk.toOption_readSource _ _ _

theorem toOption_issuesAt : (disk.issuesAt config path).toOption
    = (disk.sourceAt config path).toOption.map fun source => analyze config source.text := by
  rw [issuesAt]
  cases disk.sourceAt config path <;> rfl

theorem toBool_issuesAt : (disk.issuesAt config path).toBool
    = (disk.sourceAt config path).toOption.isSome := by
  rw [issuesAt]
  cases disk.sourceAt config path <;> rfl

theorem reportedAt?_eq : disk.reportedAt? config path
    = (disk.issuesAt config path).toOption.filter fun issues => !issues.isEmpty := by
  rw [reportedAt?]
  rcases disk.issuesAt config path with fault | issues
  · rfl
  · cases issues <;> rfl

theorem fixedAt?_eq : disk.fixedAt? config path
    = (disk.sourceAt config path).toOption.bind fun source =>
        let (text, applied) := fixSource config source.text
        if text = source.text then none else some ⟨path, source.content text, applied⟩ := by
  rw [fixedAt?]
  cases disk.sourceAt config path <;> rfl

theorem reportedAt?_performance : disk.reportedAt? { config with performance } path
    = disk.reportedAt? config path := by
  rw [reportedAt?_eq, reportedAt?_eq, toOption_issuesAt, toOption_issuesAt, toOption_sourceAt]
  rfl

theorem fixRounds_performance (passes : Nat) (source : Text) (applied : Nat) :
    fixRounds { config with performance } passes source applied
      = fixRounds config passes source applied := by
  induction passes generalizing source applied with
  | zero => rfl
  | succ passes ih =>
      have hanalyze : analyze { config with performance } = analyze config := rfl
      rw [fixRounds, fixRounds, hanalyze]
      simp only [ih]

theorem fixedAt?_performance : disk.fixedAt? { config with performance } path
    = disk.fixedAt? config path := by
  rw [fixedAt?_eq, fixedAt?_eq, toOption_sourceAt]
  simp only [fixSource, fixRounds_performance]
  rfl

end Performance

end Disk

/-! ### Reports that say the same -/

namespace ProjectReport

/-- The reports say the same; what they say of the sources may come in another
    order. -/
structure Agrees (report other : ProjectReport) : Prop where
  fileCount : report.fileCount = other.fileCount
  failed : report.failed = other.failed
  found : report.found.Perm other.found
  /-- No source is told of in two ways. -/
  inOrder : report.inOrder = other.inOrder
  issueCount : report.issueCount = other.issueCount
  severityCounts : report.severityCounts = other.severityCounts
  fixableCount : report.fixableCount = other.fixableCount
  fixed : Option.Rel List.Perm report.fixed other.fixed
  fixesApplied : report.fixesApplied = other.fixesApplied

/-- Sources that are told of in one way come in one order when they are
    sorted. -/
theorem inOrder_congr {report other : ProjectReport} (h : report.found.Perm other.found)
    (hone : ∀ a ∈ report.found, ∀ b ∈ report.found, a.1 = b.1 → a = b) :
    report.inOrder = other.inOrder := by
  have hsorted (report : ProjectReport) : report.inOrder.Pairwise fun a b =>
      FilePath.before (FilePath.split '/' a.1) (FilePath.split '/' b.1) = true := by
    refine Edit.pairwise_sortBy (fun a b => ?_) (fun a b c => ?_) report.found
    · exact FilePath.before_total _ _
    · exact FilePath.before_trans _ _ _
  have hperm (report : ProjectReport) : report.inOrder.Perm report.found := sortBy_perm _ _
  refine List.Perm.eq_of_pairwise (fun a b ha hb hab hba => ?_) (hsorted report) (hsorted other)
    ((hperm report).trans (h.trans (hperm other).symm))
  exact hone a ((hperm report).mem_iff.1 ha) b (h.mem_iff.2 ((hperm other).mem_iff.1 hb))
    (FilePath.split_injective (FilePath.before_antisymm _ _ hab hba))

/-- Reports with the same counts of sources, the same issues and the same new
    contents say the same. -/
theorem agrees_of_perm {report other : ProjectReport} (hcount : report.fileCount = other.fileCount)
    (hfailed : report.failed = other.failed) (hfound : report.found.Perm other.found)
    (hone : ∀ a ∈ report.found, ∀ b ∈ report.found, a.1 = b.1 → a = b)
    (hfixed : Option.Rel List.Perm report.fixed other.fixed) : report.Agrees other := by
  have hissues : report.issues.Perm other.issues := hfound.flatMap_right _
  refine ⟨hcount, hfailed, hfound, inOrder_congr hfound hone, hissues.length_eq, ?_,
    (hissues.filter _).length_eq, hfixed, ?_⟩
  · rw [severityCounts, severityCounts]
    simp only [hissues.countP_eq]
  · rw [fixesApplied, fixesApplied]
    generalize report.fixed = fixed at hfixed
    generalize other.fixed = fixed' at hfixed
    cases hfixed with
    | none => rfl
    | some hmade => exact hmade.foldl_eq' (fun a _ b _ sum => by omega) 0

namespace Agrees

variable {report other : ProjectReport}

/-- Reports that say the same are printed alike for people. -/
theorem summary (h : report.Agrees other) (colours fixing : Bool) (elapsed : String) :
    report.summary colours fixing elapsed = other.summary colours fixing elapsed := by
  rw [ProjectReport.summary, ProjectReport.summary, h.issueCount, h.fileCount, h.inOrder,
    h.found.length_eq, h.fixableCount]

/-- Reports that say the same make the same annotations. -/
theorem annotations (h : report.Agrees other) : report.annotations = other.annotations := by
  rw [ProjectReport.annotations, ProjectReport.annotations, h.inOrder]

end Agrees

end ProjectReport

namespace Disk

variable {disk other : Disk} {config : Config} {target : String} {fixing : Bool}
  {report report' : ProjectReport}

/-- All reports that can be made say the same, however the work is done and the
    files are read. -/
theorem Reports.agrees {performance performance' : ReadChoice}
    (h : disk.Reports { config with performance } fixing target report)
    (h' : disk.Reports { config with performance := performance' } fixing target report') :
    report.Agrees report' := by
  have hsources : disk.sources { config with performance } target = disk.sources config target := rfl
  have hsources' : disk.sources { config with performance := performance' } target
      = disk.sources config target := rfl
  -- How files are read does not count for what is found in them.
  have hfound : report.found.Perm report'.found := by
    have hperm := h.found_perm
    have hperm' := h'.found_perm
    simp only [hsources, hsources', reportedAt?_performance] at hperm hperm'
    exact hperm.trans hperm'.symm
  refine ProjectReport.agrees_of_perm ?_ ?_ hfound (fun a ha b hb hab => ?_) ?_
  · rw [h.fileCount_eq, h'.fileCount_eq, hsources, hsources']
  · rw [h.failed_eq, h'.failed_eq, hsources, hsources']
    simp only [toBool_issuesAt, toOption_sourceAt]
  · -- A source that is listed twice is reported alike.
    have hissues := h.reportedAt?_of_mem ha
    rw [hab, h.reportedAt?_of_mem hb, Option.some.injEq] at hissues
    exact Prod.ext hab hissues.symm
  · cases henabled : fixing && config.autofix.enabled with
    | false =>
        have hfixed := h.fixed
        have hfixed' := h'.fixed
        rw [henabled, if_neg Bool.false_ne_true] at hfixed hfixed'
        rw [hfixed, hfixed']
        exact .none
    | true =>
        obtain ⟨made, hperm, hmade⟩ := h.fixed_eq henabled
        obtain ⟨made', hperm', hmade'⟩ := h'.fixed_eq henabled
        -- The fixes follow the order in which the sources were found.
        have hfixable : report.fixable.Perm report'.fixable := (hfound.filter _).map _
        have hsame : made.Perm made' := by
          refine hperm.trans (((hfixable.filterMap _).trans (.of_eq ?_)).trans hperm'.symm)
          simp only [fixedAt?_performance]
        rw [hmade, hmade', hsame.isEmpty_eq]
        split
        · exact .none
        · exact .some hsame

end Disk

/-! ### Counts -/

namespace ProjectReport

/-- The issues of a report are those of its sources. -/
theorem issueCount_eq (report : ProjectReport) :
    report.issueCount = (report.found.map fun source => source.2.length).sum := by
  rw [issueCount, issues, List.length_flatMap]

/-- Each issue has one severity. -/
theorem sum_countP_severity (issues : List Issue) :
    issues.countP (fun issue => issue.rule.severity == .error)
      + issues.countP (fun issue => issue.rule.severity == .warning)
      + issues.countP (fun issue => issue.rule.severity == .info) = issues.length := by
  induction issues with
  | nil => rfl
  | cons issue issues ih =>
      simp only [List.countP_cons, List.length_cons]
      cases issue.rule.severity <;> simp only [beq_iff_eq, reduceCtorEq, if_true, if_false] <;> omega

/-- The counts of the severities add up to the number of issues. -/
theorem sum_severityCounts (report : ProjectReport) :
    (report.severityCounts.map Prod.snd).sum = report.issueCount := by
  -- A severity that does not occur adds nothing, so it may be left out.
  have hsum (count : Severity → Nat) (severities : List Severity) :
      ((severities.filterMap fun severity =>
        if count severity = 0 then none else some (severity, count severity)).map Prod.snd).sum
        = (severities.map count).sum := by
    induction severities with
    | nil => rfl
    | cons severity severities ih =>
        rw [List.filterMap_cons, List.map_cons, List.sum_cons]
        by_cases hzero : count severity = 0
        · rw [if_pos hzero, ih, hzero, Nat.zero_add]
        · rw [if_neg hzero, List.map_cons, List.sum_cons, ih]
  have hall := hsum (fun severity =>
    report.issues.countP fun issue => issue.rule.severity == severity) [.error, .warning, .info]
  rw [issueCount, ← sum_countP_severity]
  refine hall.trans ?_
  simp only [List.map_cons, List.map_nil, List.sum_cons, List.sum_nil, Nat.add_zero, Nat.add_assoc]

end ProjectReport

namespace Disk

variable {disk other : Disk} {config : Config} {target : String} {fixing : Bool}
  {report : ProjectReport}

/-- The sources with issues and those that could not be read are among the
    sources. -/
theorem Reports.length_found_add_failed_le (h : disk.Reports config fixing target report) :
    report.found.length + report.failed ≤ report.fileCount := by
  rw [h.found_perm.length_eq, h.failed_eq, h.fileCount_eq]
  -- A source that is reported could be read.
  induction disk.sources config target with
  | nil => exact Nat.le_refl _
  | cons path paths ih =>
      have hread : disk.reportedAt? config path = none
          ∨ (disk.issuesAt config path).toBool = true := by
        rw [reportedAt?]
        cases disk.issuesAt config path with
        | error fault => exact .inl rfl
        | ok issues => exact .inr rfl
      rw [List.countP_cons, List.length_cons]
      rcases hread with hnone | hread
      · have hone : (if (!(disk.issuesAt config path).toBool) = true then 1 else 0) ≤ 1 := by
          split <;> decide
        rw [List.filterMap_cons_none (by rw [hnone, Option.map_none])]
        omega
      · rw [hread, Bool.not_true, if_neg Bool.false_ne_true, List.filterMap_cons]
        cases disk.reportedAt? config path with
        | none => exact Nat.le_succ_of_le ih
        | some issues =>
            rw [Option.map_some, List.length_cons]
            omega

/-! ### Alike disks -/

namespace Alike

/-- The same sources are below a folder of alike disks. -/
theorem walk (h : disk.Alike other) (patterns : List String) (root : String) :
    (disk.walk patterns root).Perm (other.walk patterns root) := by
  simp only [Disk.walk, h.locate, h.symm.rewrites.isShown]
  exact (h.files.filter _).map _

theorem sources (h : disk.Alike other) (config : Config) (target : String) :
    (disk.sources config target).Perm (other.sources config target) := by
  rw [Disk.sources, Disk.sources, h.locate, h.isFile]
  split
  · exact .refl _
  · exact h.walk _ _

theorem sourceAt (h : disk.Alike other) (config : Config) (path : String) :
    disk.sourceAt config path = other.sourceAt config path := by
  rw [Disk.sourceAt, Disk.sourceAt, h.locate, h.readSource]

/-- Alike disks have the same reports. -/
theorem reports (h : disk.Alike other) (hreport : disk.Reports config fixing target report) :
    other.Reports config fixing target report := by
  have hanalysis : disk.analysisJob config = other.analysisJob config := by
    funext path
    rw [analysisJob, analysisJob, issuesAt, issuesAt, h.sourceAt]
  have hfix : disk.fixJob config = other.fixJob config := by
    funext path
    rw [fixJob, fixJob, h.sourceAt]
  refine ⟨?_, ?_⟩
  · obtain ⟨paths, hpaths, hcount, hruns⟩ := hreport.analysed
    exact ⟨paths, hpaths.trans (h.sources config target), hcount, hanalysis ▸ hruns⟩
  · have hfixed := hreport.fixed
    rwa [Fixes, hfix, ← Fixes] at hfixed

end Alike

end Disk

end SharpLint

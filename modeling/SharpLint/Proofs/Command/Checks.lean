import SharpLint.Command.Run
import SharpLint.Proofs.Files.Utf8
import SharpLint.Proofs.Lint.Written

/-!
# Checks Do Not Depend on How the Work Is Done

A check makes a report, writes the new contents in some order and, if it did,
makes another report of what is left. Whatever order the work is done in, by
how many workers and in whichever way the files are read, a check prints the
same lines for people and the same annotations, ends with the same code and
leaves the same on the disk.

## Main definitions

* `Request.Checks`: what a check may leave.

## Theorems

* `Request.checks_runCheck`: What the check leaves that works in order.
* `Request.Checks.agree`: All that a check may leave is the same.
* `Request.checks_are_free_of_order`: Reports and checks do not depend on how
  the work is done.
-/

namespace SharpLint

namespace Request

variable {disk : Disk} {config : Config} {path : String} {fixing strict : Bool} {format : Format}
  {outcome outcome' : Outcome}

/-- The outcome is what a check under a configuration may leave: its reports can
    be made, and the new contents are written in some order. -/
def Checks (disk : Disk) (config : Config) (path : String) (fixing : Bool) (format : Format)
    (strict : Bool) (outcome : Outcome) : Prop :=
  ∃ first written report, disk.Reports config fixing path first
    ∧ written.Perm (first.fixed.getD []) ∧ outcome.disk = disk.writeFixes written
    ∧ (if fixing then outcome.disk.Reports config false path report else report = first)
    ∧ outcome.exitCode = (if strict && 0 < report.issueCount then 1 else 0)
    ∧ outcome.lines = fun terminal =>
        fixLines terminal first ++ reportLines terminal fixing format report

/-- A check that works in order leaves what a check may leave. -/
theorem checks_runCheck (disk : Disk) (path : String) (fixing : Bool) (format : Format)
    (strict : Bool) :
    Checks disk (Config.loadOrDefault disk (configFolder disk path)) path fixing format strict
      (runCheck disk path fixing format strict) := by
  refine ⟨_, _, _, disk.reports_analyzeProject _ fixing path, .refl _, rfl, ?_, rfl, rfl⟩
  cases fixing with
  | false => rfl
  | true => exact Disk.reports_analyzeProject _ _ false path

/-- Reports that say the same have the same line about fixes. -/
theorem fixLines_congr {report report' : ProjectReport} (h : report.Agrees report')
    (terminal : Terminal) : fixLines terminal report = fixLines terminal report' := by
  have hfixed := h.fixed
  rw [fixLines, fixLines, h.fixesApplied]
  generalize report.fixed = fixed at hfixed
  generalize report'.fixed = fixed' at hfixed
  cases hfixed with
  | none => rfl
  | some hmade => simp only [hmade.length_eq]

/-- Reports that say the same are printed alike, but for other programs. -/
theorem reportLines_congr {report report' : ProjectReport} (h : report.Agrees report')
    (terminal : Terminal) (hformat : format ≠ .json) :
    reportLines terminal fixing format report = reportLines terminal fixing format report' := by
  cases format with
  | plain => exact h.summary _ _ _
  | json => exact absurd rfl hformat
  | annotations => exact h.annotations

/-- All that a check may leave is the same. -/
theorem Checks.agree {performance performance' : ReadChoice}
    (h : Checks disk { config with performance } path fixing format strict outcome)
    (h' : Checks disk { config with performance := performance' } path fixing format strict
      outcome') :
    outcome.exitCode = outcome'.exitCode ∧ outcome.disk.Alike outcome'.disk
      ∧ (format ≠ .json → outcome.lines = outcome'.lines) := by
  obtain ⟨first, written, report, hfirst, hwritten, hdisk, hreport, hcode, hlines⟩ := h
  obtain ⟨first', written', report', hfirst', hwritten', hdisk', hreport', hcode', hlines'⟩ := h'
  have hfirsts := hfirst.agrees hfirst'
  -- What is written is the same, but for the order.
  have hsame : written.Perm written' := by
    have hfixed := hfirsts.fixed
    refine hwritten.trans (List.Perm.trans ?_ hwritten'.symm)
    generalize first.fixed = fixed at hfixed
    generalize first'.fixed = fixed' at hfixed
    cases hfixed with
    | none => exact .refl _
    | some hmade => exact hmade
  have halike : outcome.disk.Alike outcome'.disk := by
    rw [hdisk, hdisk']
    exact Disk.alike_writeFixes (hfirst.takes.perm hwritten.symm) hsame
  -- A check that fixes reports what is left, and that is read from disks that are alike.
  have hreports : report.Agrees report' := by
    cases fixing with
    | false =>
        rw [if_neg Bool.false_ne_true] at hreport hreport'
        rw [hreport, hreport']
        exact hfirsts
    | true =>
        rw [if_pos rfl] at hreport hreport'
        exact (halike.reports hreport).agrees hreport'
  refine ⟨by rw [hcode, hcode', hreports.issueCount], halike, fun hformat => ?_⟩
  rw [hlines, hlines']
  funext terminal
  rw [fixLines_congr hfirsts, reportLines_congr hreports terminal hformat]

/-- Reports and checks do not depend on the order in which the work is done, on
    the number of workers and on the way in which files are read. The work can
    always be brought to its end, the reports and checks that work in order are
    among those that can be made, and the counts of each report add up. -/
theorem checks_are_free_of_order (disk : Disk) (config : Config) (path : String) (fixing : Bool)
    (performance performance' : ReadChoice) :
    (∀ work, Work.Ends (disk.analysisJob config) performance.parallelAnalysis work)
      ∧ (∀ work, Work.Ends (disk.fixJob config) performance.parallelAnalysis work)
      ∧ disk.Reports config fixing path (disk.analyzeProject config fixing path)
      ∧ (∀ report report', disk.Reports { config with performance } fixing path report →
          disk.Reports { config with performance := performance' } fixing path report' →
          report.Agrees report')
      ∧ (∀ report, disk.Reports config fixing path report →
          (report.severityCounts.map Prod.snd).sum = report.issueCount
            ∧ report.issueCount = (report.found.map fun source => source.2.length).sum
            ∧ report.found.length + report.failed ≤ report.fileCount)
      ∧ ∀ format strict,
          Checks disk (Config.loadOrDefault disk (configFolder disk path)) path fixing format strict
              (runCheck disk path fixing format strict)
            ∧ ∀ outcome outcome',
              Checks disk { config with performance } path fixing format strict outcome →
              Checks disk { config with performance := performance' } path fixing format strict
                outcome' →
              outcome.exitCode = outcome'.exitCode ∧ outcome.disk.Alike outcome'.disk
                ∧ (format ≠ .json → outcome.lines = outcome'.lines) := by
  refine ⟨Work.ends _ _, Work.ends _ _, disk.reports_analyzeProject config fixing path,
    fun _ _ h h' => h.agrees h', fun report h => ?_, fun format strict => ?_⟩
  · exact ⟨report.sum_severityCounts, report.issueCount_eq, h.length_found_add_failed_le⟩
  · exact ⟨checks_runCheck disk path fixing format strict, fun _ _ h h' => h.agree h'⟩

/-- A type with a field that nothing reads. -/
def twinSource : Text :=
  "class C \x7b private int _x; C(int x) \x7b _x = x; \x7d \x7d".toList

/-- A folder with two such types. -/
def twinDisk : Disk where
  files := [(["A.cs"], Utf8.encode twinSource), (["B.cs"], Utf8.encode twinSource)]

set_option maxRecDepth 100000 in
/-- The types may be gathered the other way round, and the annotations are the
    same. -/
theorem checks_are_free_of_order_reversed :
    ∃ report, twinDisk.Reports {} false "." report
      ∧ report.found.map Prod.fst = ["./B.cs", "./A.cs"]
      ∧ (twinDisk.analyzeProject { performance := ⟨false, false⟩ } false ".").found.map Prod.fst
          = ["./A.cs", "./B.cs"]
      ∧ report.annotations
          = (twinDisk.analyzeProject { performance := ⟨false, false⟩ } false ".").annotations := by
  have hsources (performance : ReadChoice) :
      twinDisk.sources { performance } "." = ["./A.cs", "./B.cs"] := by
    change twinDisk.sources {} "." = ["./A.cs", "./B.cs"]
    decide +kernel
  have hissues : (analyze {} twinSource).isEmpty = false := by decide +kernel
  have hread (performance : ReadChoice) (path : String) (hlookup : twinDisk.files.lookup
      (twinDisk.locate path) = some (Utf8.encode twinSource)) :
      twinDisk.reportedAt? { performance } path = some (analyze {} twinSource) := by
    rw [Disk.reportedAt?_performance twinDisk {} performance, Disk.reportedAt?_eq,
      Disk.toOption_issuesAt, Disk.sourceAt, Disk.toOption_readSource_eq, hlookup,
      Option.bind_some, Utf8.decode_encode]
    exact Option.filter_some_pos (by rw [Bool.not_eq_true']; exact hissues)
  -- Worked in the other order, the issues are gathered in the other order.
  have hruns := Work.runs_in_order (twinDisk.analysisJob {}) true ["./B.cs", "./A.cs"]
  simp only [List.filterMap_cons, List.filterMap_nil, Disk.result?_analysisJob,
    hread {} "./A.cs" rfl, hread {} "./B.cs" rfl, Option.map_some] at hruns
  have hinOrder : (twinDisk.analyzeProject { performance := ⟨false, false⟩ } false ".").found
      = [("./A.cs", analyze {} twinSource), ("./B.cs", analyze {} twinSource)] := by
    refine (twinDisk.found_eq _ _).trans ?_
    simp only [hsources, List.filterMap_cons, List.filterMap_nil,
      hread ⟨false, false⟩ "./A.cs" rfl, hread ⟨false, false⟩ "./B.cs" rfl, Option.map_some]
  have hreport : twinDisk.Reports {} false "."
      ⟨2, _, [("./B.cs", analyze {} twinSource), ("./A.cs", analyze {} twinSource)], none⟩ :=
    ⟨⟨_, (hsources {}).symm ▸ List.Perm.swap _ _ _, rfl, hruns⟩, rfl⟩
  -- Both reports are of the same disk, so they agree.
  have hagrees := (checks_are_free_of_order twinDisk {} "." false {} ⟨false, false⟩).2.2.2.1 _ _
    hreport (Disk.reports_analyzeProject _ _ _ _)
  exact ⟨_, hreport, rfl, by rw [hinOrder]; rfl, hagrees.annotations⟩

end Request

end SharpLint

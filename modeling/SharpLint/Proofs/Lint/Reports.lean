import SharpLint.Lint.Project

/-!
# What a Report Says of Each Source

Each source is read and analysed by itself, so a report can be asked about one
source at a time: it has the issues of the source, if the source can be read
and there are any. Which way a file is read decides only how a fault is
reported, so it shows in no report.

## Main definitions

* `Disk.reportedAt?`: the issues of a source, if it is reported.
* `ProjectReport.issuesOf`: the issues that a report has of a source.

## Theorems

* `Disk.found_eq`: The sources that are reported.
* `Disk.issuesOf_analyzeProject`: What a report has of a source.
* `Disk.toOption_readSource`: A source is the same however it is read.
-/

namespace SharpLint

/-- The issues that a report has of a source. -/
def ProjectReport.issuesOf (report : ProjectReport) (path : String) : List Issue :=
  (report.found.lookup path).getD []

namespace Disk

variable (disk : Disk) (config : Config)

/-- The issues of a source that is reported: one that can be read and has any. -/
def reportedAt? (path : String) : Option (List Issue) :=
  match disk.issuesAt config path with
  | .ok (issue :: issues) => some (issue :: issues)
  | _ => none

theorem getD_reportedAt? (path : String) :
    (disk.reportedAt? config path).getD [] = (disk.issuesAt config path).toOption.getD [] := by
  rw [reportedAt?]
  rcases disk.issuesAt config path with fault | issues
  · rfl
  · cases issues <;> rfl

/-- The sources that are reported, with their issues. -/
theorem found_eq (paths : List String) :
    (disk.issuesOf config paths).1
      = paths.filterMap fun path => (disk.reportedAt? config path).map (path, ·) := by
  simp only [issuesOf, List.filterMap_map]
  refine congrArg (List.filterMap · paths) (funext fun path => ?_)
  simp only [Function.comp_apply, reportedAt?]
  rcases disk.issuesAt config path with fault | issues
  · rfl
  · cases issues <;> rfl

/-- The number of sources that cannot be read. -/
theorem failed_eq (paths : List String) :
    (disk.issuesOf config paths).2
      = paths.countP fun path => !(disk.issuesAt config path).toBool := by
  simp only [issuesOf, List.countP_map]
  rfl

/-- What is kept for a key among what is kept for some keys. -/
theorem lookup_filterMap {α : Type} (kept : String → Option α) (keys : List String) (key : String) :
    (keys.filterMap fun key => (kept key).map (key, ·)).lookup key
      = if key ∈ keys then kept key else none := by
  induction keys with
  | nil => rfl
  | cons other keys ih =>
      by_cases hkey : key = other
      · subst hkey
        rw [if_pos List.mem_cons_self, List.filterMap_cons]
        cases hkept : kept key with
        | none => rw [Option.map_none, ih, hkept, ite_self]
        | some value => rw [Option.map_some, List.lookup_cons_self]
      · have hmem : key ∈ other :: keys ↔ key ∈ keys := by
          rw [List.mem_cons, or_iff_right hkey]
        rw [List.filterMap_cons]
        simp only [hmem]
        cases kept other with
        | none => exact ih
        | some value => rw [Option.map_some, List.lookup_cons, beq_false_of_ne hkey]; exact ih

/-- A report has the issues of each source that can be read. -/
theorem issuesOf_analyzeProject {target path : String} (hpath : path ∈ disk.sources config target)
    (fixing : Bool) : (disk.analyzeProject config fixing target).issuesOf path
      = (disk.issuesAt config path).toOption.getD [] := by
  have hfound : (disk.analyzeProject config fixing target).found
      = (disk.issuesOf config (disk.sources config target)).1 := rfl
  rw [ProjectReport.issuesOf, hfound, found_eq, lookup_filterMap, if_pos hpath, getD_reportedAt?]

/-- A source that cannot be read is counted. -/
theorem failed_analyzeProject_pos {target path : String}
    (hpath : path ∈ disk.sources config target) (hfault : (disk.issuesAt config path).toBool = false)
    (fixing : Bool) : 0 < (disk.analyzeProject config fixing target).failed := by
  have hfailed : (disk.analyzeProject config fixing target).failed
      = (disk.issuesOf config (disk.sources config target)).2 := rfl
  rw [hfailed, failed_eq, List.countP_pos_iff]
  exact ⟨path, hpath, by rw [hfault]; rfl⟩

/-- A source is the same however it is read. -/
theorem toOption_readSource (path : FilePath) (mapped other : Bool) :
    (disk.readSource mapped path).toOption = (disk.readSource other path).toOption := by
  rw [readSource, readSource]
  cases disk.bytes path with
  | error fault => rfl
  | ok bytes =>
      simp only
      split <;> rfl

end Disk

end SharpLint

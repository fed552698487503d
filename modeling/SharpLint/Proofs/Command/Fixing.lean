import SharpLint.Command.Run
import SharpLint.Proofs.Files.Utf8
import SharpLint.Proofs.Lint.Beginning
import SharpLint.Proofs.Lint.Passes
import SharpLint.Proofs.Lint.Written

/-!
# Fixing Again

A check that fixes rewrites the sources that fixing changes, each with its byte
order mark, and leaves everything else on the disk as it was. When the rounds on
every source that changes have come to rest, a second check finds the same
sources under the same configuration, and fixing makes of each what it is: the
disk stays as it is, byte for byte.

## Main definitions

* `Disk.Settles`: the rounds on each source that changes come to rest.

## Theorems

* `Disk.Reports.mem_fixed_iff`: The sources that are rewritten.
* `Disk.Reports.lookup_fixed`: What is in a source then.
* `Request.check_with_fixes_again`: What the first check leaves, the second
  leaves as it is.
-/

namespace SharpLint

/-- A source that changes has a fix on offer. -/
theorem offers_ne_nil_of_changes {config : Config} {source : Text}
    (h : (fixSource config source).1 ≠ source) : offers config source ≠ [] := fun hnone =>
  h (fixRounds_of_rest (by rw [fixRound, hnone, Batch.run_nil]) _ 0)

namespace Disk

variable {disk : Disk} {config : Config} {target written : String} {fixing : Bool}
  {report : ProjectReport}

/-! ### What is rewritten -/

/-- A source that changes is reported with a fix. -/
theorem reported_of_changes {file : SourceFile}
    (hfile : (disk.sourceAt config written).toOption = some file)
    (hchanges : (fixSource config file.text).1 ≠ file.text) :
    ∃ issues, disk.reportedAt? config written = some issues
      ∧ (issues.any fun issue => issue.fix.isSome) = true := by
  obtain ⟨fix, hfix⟩ := List.exists_mem_of_ne_nil _ (offers_ne_nil_of_changes hchanges)
  obtain ⟨issue, hissue, hissueFix⟩ := mem_offers.1 hfix
  refine ⟨analyze config file.text, ?_, List.any_eq_true.2 ⟨issue, hissue, by rw [hissueFix]; rfl⟩⟩
  rw [reportedAt?_eq, toOption_issuesAt, hfile]
  refine Option.filter_some_pos ?_
  rw [Bool.not_eq_true', List.isEmpty_eq_false_iff]
  exact List.ne_nil_of_mem hissue

/-- The sources that may be fixed are those that are reported with a fix. -/
theorem Reports.mem_fixable_iff (h : disk.Reports config fixing target report) :
    written ∈ report.fixable ↔ written ∈ disk.sources config target
      ∧ ∃ issues, disk.reportedAt? config written = some issues
        ∧ (issues.any fun issue => issue.fix.isSome) = true := by
  simp only [ProjectReport.fixable, List.mem_map, List.mem_filter, h.found_perm.mem_iff,
    List.mem_filterMap, Option.map_eq_some_iff]
  constructor
  · rintro ⟨source, ⟨⟨path, hpath, issues, hissues, rfl⟩, hany⟩, rfl⟩
    exact ⟨hpath, issues, hissues, hany⟩
  · rintro ⟨hwritten, issues, hissues, hany⟩
    exact ⟨(written, issues), ⟨⟨written, hwritten, issues, hissues, rfl⟩, hany⟩, rfl⟩

/-- The sources that are rewritten are those that fixing changes. -/
theorem Reports.mem_fixed_iff (h : disk.Reports config fixing target report)
    {source : FixedSource} : source ∈ report.fixed.getD [] ↔
      (fixing && config.autofix.enabled) = true ∧ source.path ∈ disk.sources config target
        ∧ disk.fixedAt? config source.path = some source := by
  cases henabled : fixing && config.autofix.enabled with
  -- Nothing is fixed where fixing is not asked for.
  | false =>
      have hfixed := h.fixed
      rw [henabled, if_neg Bool.false_ne_true] at hfixed
      rw [hfixed]
      exact ⟨fun hmem => absurd hmem List.not_mem_nil, fun hfalse => absurd hfalse.1 Bool.false_ne_true⟩
  -- Otherwise the sources that are made are those with a fix on offer that change.
  | true =>
      obtain ⟨made, hperm, hmade⟩ := h.fixed_eq henabled
      have hgetD : report.fixed.getD [] = made := by
        rw [hmade]
        cases made <;> rfl
      have hmem : source ∈ report.fixed.getD []
          ↔ ∃ path ∈ report.fixable, disk.fixedAt? config path = some source := by
        rw [hgetD, hperm.mem_iff, List.mem_filterMap]
      constructor
      · intro hsource
        obtain ⟨path, hpath, hfixed⟩ := hmem.1 hsource
        obtain ⟨-, -, hsame, -⟩ := fixedAt?_eq_some hfixed
        exact ⟨rfl, hsame ▸ (h.mem_fixable_iff.1 hpath).1, h.fixedAt?_of_mem hsource⟩
      · -- A source that changes has a fix on offer, so it is among those that are tried.
        rintro ⟨-, hsource, hfixed⟩
        obtain ⟨file, hfile, -, hchanges, -⟩ := fixedAt?_eq_some hfixed
        exact hmem.2 ⟨source.path,
          h.mem_fixable_iff.2 ⟨hsource, reported_of_changes hfile hchanges⟩, hfixed⟩

/-- What a source becomes is told by where it is. -/
theorem content_fixedAt?_congr {a b : String} (h : disk.locate a = disk.locate b) :
    (disk.fixedAt? config a).map FixedSource.content
      = (disk.fixedAt? config b).map FixedSource.content := by
  rw [fixedAt?_eq, fixedAt?_eq, sourceAt, sourceAt, h]
  cases (disk.readSource config.performance.memoryMapped (disk.locate b)).toOption with
  | none => rfl
  | some file =>
      simp only [Option.bind_some]
      split <;> rfl

/-- What is in a source after the new contents are written. -/
theorem Reports.lookup_fixed (h : disk.Reports config fixing target report)
    (hwritten : written ∈ disk.sources config target) :
    (disk.writeFixes (report.fixed.getD [])).files.lookup (disk.locate written)
      = (((if fixing && config.autofix.enabled then disk.fixedAt? config written else none).map
          fun source => Utf8.encode source.content).or
        (disk.files.lookup (disk.locate written))) := by
  rw [lookup_writeFixes h.takes]
  refine congrArg (Option.or · _) ?_
  have hencoded (source? : Option FixedSource) : (source?.map fun source => Utf8.encode source.content)
      = (source?.map FixedSource.content).map Utf8.encode :=
    (Option.map_map Utf8.encode FixedSource.content source?).symm
  cases hfind : (report.fixed.getD []).find? fun source =>
      disk.locate source.path == disk.locate written with
  -- The source that is found may be written under another path to the same file.
  | some source =>
      obtain ⟨henabled, -, hfixed⟩ := h.mem_fixed_iff.1 (List.mem_of_find?_eq_some hfind)
      have hsame := List.find?_some hfind
      rw [beq_iff_eq] at hsame
      rw [if_pos henabled, hencoded, hencoded, ← hfixed, content_fixedAt?_congr hsame]
  | none =>
      cases henabled : fixing && config.autofix.enabled with
      | false => rfl
      | true =>
          cases hfixed : disk.fixedAt? config written with
          | none => rfl
          | some source =>
              -- Were there a new content, it would be found.
              obtain ⟨-, -, hpath, -⟩ := fixedAt?_eq_some hfixed
              rw [← hpath] at hfixed hwritten
              have hnot := List.find?_eq_none.1 hfind source
                (h.mem_fixed_iff.2 ⟨henabled, hwritten, hfixed⟩)
              rw [hpath] at hnot
              exact absurd (beq_self_eq_true _) hnot

/-- What is in no source stays. -/
theorem Reports.lookup_spared (h : disk.Reports config fixing target report) {path : FilePath}
    (hpath : ∀ written ∈ disk.sources config target, disk.locate written ≠ path) :
    (disk.writeFixes (report.fixed.getD [])).files.lookup path = disk.files.lookup path := by
  rw [lookup_writeFixes h.takes, List.find?_eq_none.2 fun source hsource => ?_]
  · rfl
  · obtain ⟨-, hmem, -⟩ := h.mem_fixed_iff.1 hsource
    rw [beq_iff_eq]
    exact hpath source.path hmem

/-! ### Fixing the disk again -/

/-- The rounds on each source that changes come to rest before their number is
    used up. -/
def Settles (disk : Disk) (config : Config) (target : String) : Prop :=
  ∀ written ∈ disk.sources config target, ∀ file, disk.sourceAt config written = .ok file →
    (fixSource config file.text).1 ≠ file.text →
      settles config config.autofix.maxPasses file.text = true

/-- A source that is rewritten at rest does not change again. -/
theorem Reports.fixedAt?_again (h : disk.Reports config true target report)
    (henabled : config.autofix.enabled = true) (hsettles : disk.Settles config target)
    (hwritten : written ∈ disk.sources config target) :
    (disk.writeFixes (report.fixed.getD [])).fixedAt? config written = none := by
  have hlookup := h.lookup_fixed hwritten
  have hlocate : (disk.writeFixes (report.fixed.getD [])).locate written = disk.locate written :=
    h.takes.sameFiles.locate written
  rw [henabled, Bool.and_self, if_pos rfl] at hlookup
  cases hfixed : disk.fixedAt? config written with
  | none =>
      -- The source is as it was, so what it becomes is too.
      rw [hfixed, Option.map_none, Option.none_or] at hlookup
      rw [← hfixed, fixedAt?_eq, fixedAt?_eq, sourceAt, sourceAt, toOption_readSource_eq,
        toOption_readSource_eq, hlocate, hlookup]
  | some source =>
      obtain ⟨file, hfile, -, hchanges, hcontent, -⟩ := fixedAt?_eq_some hfixed
      rw [hfixed, Option.map_some, Option.some_or, hcontent] at hlookup
      -- The source is at rest now, so a run on what was written changes nothing.
      have hrest := fixSource_again (hsettles written hwritten file (eq_ok_of_toOption hfile) hchanges)
      rw [sourceAt, toOption_readSource_eq] at hfile
      obtain ⟨bytes, -, hdecoded⟩ := Option.bind_eq_some_iff.1 hfile
      obtain ⟨whole, -, hwhole⟩ := Option.map_eq_some_iff.1 hdecoded
      rw [fixedAt?_eq, sourceAt, toOption_readSource_eq, hlocate, hlookup, Option.bind_some,
        Utf8.decode_encode]
      simp only [Except.toOption, Option.map_some, Option.bind_some,
        SourceFile.ofContent_fixed config hwhole.symm, hrest, if_true]

end Disk

namespace Request

open Disk

/-- A check with fixes changes a source only where fixing changes its text, and
    writes just the fixed text then, behind the byte order mark that was read.
    A source that cannot be read stays, and so does all that is no source. Where
    the rounds come to rest, a second check leaves the disk as the first one
    did. -/
theorem check_with_fixes_again (disk : Disk) (path : String) (format : Format) (strict : Bool) :
    let config := Config.loadOrDefault disk (configFolder disk path)
    let once := (runCheck disk path true format strict).disk
    (∀ written ∈ disk.sources config path, once.find (disk.locate written) =
        match disk.sourceAt config written with
        | .ok file =>
          if config.autofix.enabled ∧ (fixSource config file.text).1 ≠ file.text then
            .file (Utf8.encode (file.content (fixSource config file.text).1))
          else disk.find (disk.locate written)
        | .error _ => disk.find (disk.locate written))
      ∧ (∀ other, (∀ written ∈ disk.sources config path, disk.locate written ≠ other) →
          once.find other = disk.find other)
      ∧ (disk.Plain →
          (disk.isFile (disk.locate path) = true → isSource (disk.locate path) = true) →
          (config.autofix.enabled = true → disk.Settles config path) →
          ∀ format strict, (runCheck once path true format strict).disk = once) := by
  intro config once
  have hreport := disk.reports_analyzeProject config true path
  have hfiles : disk.SameFiles once := hreport.takes.sameFiles
  refine ⟨fun written hwritten => ?_, fun other hother => ?_, fun hplain hpath hsettles => ?_⟩
  · have hlookup : once.files.lookup (disk.locate written) = _ := hreport.lookup_fixed hwritten
    have hfixed := disk.fixedAt?_eq config written
    cases hfile : disk.sourceAt config written with
    -- What cannot be read is not fixed, so its file stays.
    | error fault =>
        rw [hfile] at hfixed
        rw [hfixed] at hlookup
        exact hfiles.find (hlookup.trans (by split <;> rfl))
    | ok file =>
        rw [hfile] at hfixed
        simp only [Except.toOption, Option.bind_some] at hfixed
        rw [hfixed, Bool.true_and] at hlookup
        simp only
        split
        · next hchanges =>
          rw [if_pos hchanges.1, if_neg hchanges.2, Option.map_some, Option.some_or] at hlookup
          rw [find, hlookup]
        · next hkeeps =>
          rw [not_and, Classical.not_not] at hkeeps
          refine hfiles.find (hlookup.trans ?_)
          split
          · next henabled => rw [if_pos (hkeeps henabled)]; rfl
          · rfl
  · -- What is no source is not written to.
    exact hfiles.find (hreport.lookup_spared hother)
  · have hrewrites : disk.Rewrites once := hreport.takes.rewrites
      fun source hsource => isSource_locate hplain hpath (hreport.mem_fixed_iff.1 hsource).2.1
    -- The second check works under the same configuration.
    have hfolder : configFolder once path = configFolder disk path := by
      rw [configFolder, configFolder, hrewrites.locate, hrewrites.isFile]
    have hconfig : Config.loadOrDefault once (configFolder once path) = config := by
      rw [hfolder, hrewrites.loadOrDefault]
    -- No source changes a second time, since each was rewritten at rest.
    have hnone : (once.analyzeProject config true path).fixed.getD [] = [] := by
      refine List.eq_nil_iff_forall_not_mem.2 fun source hsource => ?_
      obtain ⟨henabled, hmem, hfixed⟩ :=
        (once.reports_analyzeProject config true path).mem_fixed_iff.1 hsource
      rw [Bool.true_and] at henabled
      have hagain := hreport.fixedAt?_again henabled (hsettles henabled) (hrewrites.mem_sources.1 hmem)
      exact absurd (hfixed.symm.trans hagain) (by simp only [reduceCtorEq, not_false_eq_true])
    intro format strict
    change once.writeFixes ((once.analyzeProject
      (Config.loadOrDefault once (configFolder once path)) true path).fixed.getD []) = once
    rw [hconfig, hnone]
    rfl

/-- A folder with a type that has a field which nothing reads, behind a byte
    order mark. -/
def markedDisk : Disk where
  files := [(["A.cs"], Utf8.encode (SourceFile.mark :: unreadSource))]

set_option maxRecDepth 100000 in
/-- The field goes, the mark stays, and a second check changes nothing. -/
theorem check_with_fixes_again_marked :
    let once := (runCheck markedDisk "." true .plain false).disk
    once.find ["A.cs"] = .file (Utf8.encode
        (SourceFile.mark :: "class C \x7b C() \x7b \x7d \x7d".toList))
      ∧ ∀ format strict, (runCheck once "." true format strict).disk = once := by
  intro once
  have hconfig : Config.loadOrDefault markedDisk (configFolder markedDisk ".") = {} := by
    decide +kernel
  have hsources : markedDisk.sources {} "." = ["./A.cs"] := by decide +kernel
  obtain ⟨hsettles, hfixed⟩ : settles {} ({} : Config).autofix.maxPasses unreadSource = true
      ∧ (fixSource {} unreadSource).1 = "class C \x7b C() \x7b \x7d \x7d".toList := by
    decide +kernel
  -- The mark is set apart when the source is read.
  have hread : markedDisk.sourceAt {} "./A.cs" = .ok ⟨unreadSource, true⟩ := by
    refine eq_ok_of_toOption ?_
    rw [sourceAt, toOption_readSource_eq, show markedDisk.files.lookup (markedDisk.locate "./A.cs")
      = some (Utf8.encode (SourceFile.mark :: unreadSource)) from rfl, Option.bind_some,
      Utf8.decode_encode]
    rfl
  obtain ⟨hwritten, -, hagain⟩ := check_with_fixes_again markedDisk "." .plain false
  rw [hconfig] at hwritten hagain
  refine ⟨?_, hagain ?_ ?_ ?_⟩
  · have hfind := hwritten "./A.cs" (by rw [hsources]; exact List.mem_singleton_self _)
    rw [hread] at hfind
    simp only [hfixed] at hfind
    rw [if_pos ⟨trivial, by decide⟩] at hfind
    exact hfind
  · intro path hpath name hname
    obtain rfl := List.mem_singleton.1 hpath
    obtain rfl := List.mem_singleton.1 hname
    exact ⟨by decide, by decide, by decide, by decide⟩
  · exact fun hfile => absurd hfile (by decide)
  · intro _ written hmem file hfile _
    rw [hsources] at hmem
    obtain rfl := List.mem_singleton.1 hmem
    rw [hread, Except.ok.injEq] at hfile
    exact hfile ▸ hsettles

end Request

end SharpLint

import SharpLint.Proofs.Lint.Agreement

/-!
# Writing Fixes

New contents are written to files that were read, so no write fails. Two
written paths that lead to one file have the same new content, for it is made
of what is in the file; so the order in which the files are written leaves no
trace.

## Main definitions

* `Disk.Takes`: the new contents can be written in any order.

## Theorems

* `Disk.Reports.takes`: The new contents of a report can be.
* `Disk.Takes.sameFiles`: Writing them makes no file.
* `Disk.lookup_writeFixes`: What is in the files then.
* `Disk.alike_writeFixes`: The order leaves no trace.
-/

namespace SharpLint

namespace Disk

variable {disk other : Disk} {config : Config} {target : String} {fixing : Bool}
  {report : ProjectReport} {sources sources' : List FixedSource}

/-- The sources are files that are there, and no file is to become two
    things. -/
structure Takes (disk : Disk) (sources : List FixedSource) : Prop where
  isFile : ∀ source ∈ sources, disk.isFile (disk.locate source.path) = true
  same : ∀ a ∈ sources, ∀ b ∈ sources, disk.locate a.path = disk.locate b.path →
    a.content = b.content

/-- What is known of a source that changes. -/
theorem fixedAt?_eq_some {path : String} {source : FixedSource}
    (h : disk.fixedAt? config path = some source) :
    ∃ file, (disk.sourceAt config path).toOption = some file
      ∧ source.path = path ∧ (fixSource config file.text).1 ≠ file.text
      ∧ source.content = file.content (fixSource config file.text).1
      ∧ source.applied = (fixSource config file.text).2 := by
  rw [fixedAt?_eq] at h
  obtain ⟨file, hfile, hsome⟩ := Option.bind_eq_some_iff.1 h
  simp only at hsome
  split at hsome
  · exact absurd hsome (by simp only [reduceCtorEq, not_false_eq_true])
  · next hchanges =>
    rw [Option.some.injEq] at hsome
    exact ⟨file, hfile, hsome ▸ rfl, hchanges, hsome ▸ rfl, hsome ▸ rfl⟩

/-- What a report says of the new contents can be written. -/
theorem Reports.takes (h : disk.Reports config fixing target report) :
    disk.Takes (report.fixed.getD []) := by
  refine ⟨fun source hsource => ?_, fun a ha b hb hab => ?_⟩
  · obtain ⟨file, hfile, -⟩ := fixedAt?_eq_some (h.fixedAt?_of_mem hsource)
    rw [sourceAt, toOption_readSource_eq] at hfile
    obtain ⟨bytes, hlookup, -⟩ := Option.bind_eq_some_iff.1 hfile
    exact isFile_iff.2 ⟨bytes, hlookup⟩
  · obtain ⟨file, hfile, -, -, hcontent, -⟩ := fixedAt?_eq_some (h.fixedAt?_of_mem ha)
    obtain ⟨file', hfile', -, -, hcontent', -⟩ := fixedAt?_eq_some (h.fixedAt?_of_mem hb)
    rw [sourceAt, hab, ← sourceAt, hfile', Option.some.injEq] at hfile
    rw [hcontent, hcontent', hfile]

theorem Takes.perm (h : disk.Takes sources) (hperm : sources.Perm sources') :
    disk.Takes sources' :=
  ⟨fun source hsource => h.isFile source (hperm.mem_iff.2 hsource), fun a ha b hb =>
    h.same a (hperm.mem_iff.2 ha) b (hperm.mem_iff.2 hb)⟩

theorem Takes.alike (h : disk.Takes sources) (halike : disk.Alike other) : other.Takes sources where
  isFile source hsource := by
    rw [← halike.locate, ← halike.isFile]
    exact h.isFile source hsource
  same a ha b hb hab := by
    rw [← halike.locate, ← halike.locate] at hab
    exact h.same a ha b hb hab

/-- A file that is there is written. -/
theorem writeFixes_cons {source : FixedSource}
    (h : disk.isFile (disk.locate source.path) = true) (sources : List FixedSource) :
    disk.writeFixes (source :: sources)
      = (disk.put (disk.locate source.path) (Utf8.encode source.content)).writeFixes sources := by
  obtain ⟨bytes, hlookup⟩ := isFile_iff.1 h
  rw [writeFixes, writeFixes, List.foldl_cons, write, find, hlookup]
  rfl

/-- What is still to be written can be, after one file is. -/
theorem Takes.tail {source : FixedSource} (h : disk.Takes (source :: sources)) :
    (disk.put (disk.locate source.path) (Utf8.encode source.content)).Takes sources := by
  refine ⟨fun later hlater => ?_, fun a ha b hb =>
    h.same a (List.mem_cons_of_mem _ ha) b (List.mem_cons_of_mem _ hb)⟩
  obtain ⟨bytes, hlookup⟩ := isFile_iff.1 (h.isFile later (List.mem_cons_of_mem _ hlater))
  rw [isFile_iff, lookup_put]
  split
  · exact ⟨_, rfl⟩
  · exact ⟨bytes, hlookup⟩

/-- What holds of a disk, and stays whatever new content is put, holds when all
    are written. -/
theorem Takes.preserves {P : Disk → Prop} (h : disk.Takes sources) (hdisk : P disk)
    (hput : ∀ other, P other → ∀ source ∈ sources,
      P (other.put (disk.locate source.path) (Utf8.encode source.content))) :
    P (disk.writeFixes sources) := by
  induction sources generalizing disk with
  | nil => exact hdisk
  | cons source sources ih =>
      rw [writeFixes_cons (h.isFile source List.mem_cons_self)]
      exact ih h.tail (hput disk hdisk source List.mem_cons_self) fun other hother later hlater =>
        hput other hother later (List.mem_cons_of_mem _ hlater)

/-- No file is made, and none goes. -/
theorem Takes.sameFiles (h : disk.Takes sources) : disk.SameFiles (disk.writeFixes sources) :=
  h.preserves (.refl disk) fun _ hother source hsource => hother.put (h.isFile source hsource) _

/-- Where all new contents are for sources, only sources are rewritten. -/
theorem Takes.rewrites (h : disk.Takes sources)
    (hsources : ∀ source ∈ sources, isSource (disk.locate source.path) = true) :
    disk.Rewrites (disk.writeFixes sources) :=
  h.preserves (.refl disk) fun _ hother source hsource =>
    hother.put (hsources source hsource) (h.isFile source hsource) _

/-- A file has its new content, if it has one, and else is as before. -/
theorem lookup_writeFixes (h : disk.Takes sources) (path : FilePath) :
    (disk.writeFixes sources).files.lookup path
      = ((sources.find? fun source => disk.locate source.path == path).map fun source =>
        Utf8.encode source.content).or (disk.files.lookup path) := by
  induction sources generalizing disk with
  | nil => rfl
  | cons source sources ih =>
      have hlater : (sources.find? fun later =>
          (disk.put (disk.locate source.path) (Utf8.encode source.content)).locate later.path == path)
          = sources.find? fun later => disk.locate later.path == path := rfl
      rw [writeFixes_cons (h.isFile source List.mem_cons_self), ih h.tail, hlater, List.find?_cons,
        lookup_put]
      by_cases hpath : disk.locate source.path = path
      · rw [beq_iff_eq.2 hpath, if_pos hpath.symm]
        -- What is written to the file later is the same.
        cases hfind : sources.find? fun source => disk.locate source.path == path with
        | none => rfl
        | some later =>
            have hmem := List.mem_of_find?_eq_some hfind
            have hsame := List.find?_some hfind
            rw [beq_iff_eq] at hsame
            have hcontent := h.same later (List.mem_cons_of_mem _ hmem) source List.mem_cons_self
              (hsame.trans hpath.symm)
            simp only [Option.map_some, Option.some_or, hcontent]
      · rw [beq_false_of_ne hpath, if_neg (Ne.symm hpath)]

/-- Alike disks stay alike. -/
theorem Alike.writeFixes (halike : disk.Alike other) (h : disk.Takes sources) :
    (disk.writeFixes sources).Alike (other.writeFixes sources) := by
  induction sources generalizing disk other with
  | nil => exact halike
  | cons source sources ih =>
      rw [writeFixes_cons (h.isFile source List.mem_cons_self),
        writeFixes_cons ((h.alike halike).isFile source List.mem_cons_self), ← halike.locate]
      exact ih (halike.put _ _) h.tail

/-- The order in which files are written leaves no trace. -/
theorem alike_writeFixes (h : disk.Takes sources) (hperm : sources.Perm sources') :
    (disk.writeFixes sources).Alike (disk.writeFixes sources') := by
  induction hperm generalizing disk with
  | nil => exact .refl _
  | cons source hperm ih =>
      have hfile := h.isFile source List.mem_cons_self
      rw [writeFixes_cons hfile, writeFixes_cons hfile]
      exact ih h.tail
  -- Two writes to one path write one source, so they may change places.
  | swap a b rest =>
      have hswapped := h.perm (List.Perm.swap a b rest)
      rw [writeFixes_cons (h.isFile b List.mem_cons_self),
        writeFixes_cons (h.tail.isFile a List.mem_cons_self),
        writeFixes_cons (hswapped.isFile a List.mem_cons_self),
        writeFixes_cons (hswapped.tail.isFile b List.mem_cons_self)]
      refine (disk.put_comm fun hpath => ?_).writeFixes h.tail.tail
      rw [h.same b List.mem_cons_self a (List.mem_cons_of_mem _ List.mem_cons_self) hpath]
  | trans hperm _ ih ih' => exact (ih h).trans (ih' (h.perm hperm))

end Disk

end SharpLint

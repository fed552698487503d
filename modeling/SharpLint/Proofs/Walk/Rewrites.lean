import SharpLint.Config.Store
import SharpLint.Lint.Project
import SharpLint.Proofs.Files.Disk

/-!
# Rewritten Sources

Nothing that a walk looks at is a source: not the ignore files, and not the
configuration. So where only sources are rewritten, walks find the same sources,
and the same configuration holds. What a walk finds is a source, and its written
path leads back to it.

## Main definitions

* `Disk.Rewrites`: two disks differ only in what is in sources.

## Theorems

* `Disk.Rewrites.mem_sources`: The same sources are found.
* `Disk.Rewrites.loadOrDefault`: The same configuration holds.
* `Disk.isSource_locate`: What is found is a source.
-/

namespace SharpLint

namespace Disk

variable {disk other : Disk}

/-! ### Sources by their names -/

/-- Whether a path is a source shows in its last names. -/
theorem isSource_append (folder : FilePath) {names : FilePath} (h : names ≠ []) :
    isSource (folder ++ names) = isSource names := by
  rw [isSource, List.getLast?_append_of_ne_nil _ h, ← isSource]

/-! ### Disks that differ in sources only -/

/-- The files are the same, and those that are no sources have the same in
    them. -/
structure Rewrites (disk other : Disk) : Prop extends disk.SameFiles other where
  spared : ∀ path, isSource path = false → other.files.lookup path = disk.files.lookup path

namespace Rewrites

protected theorem refl (disk : Disk) : disk.Rewrites disk :=
  ⟨.refl disk, fun _ _ => rfl⟩

theorem read (h : disk.Rewrites other) {path : FilePath} (hspared : isSource path = false) :
    other.read path = disk.read path := by
  rw [Disk.read, Disk.read, h.bytes (h.spared path hspared)]

/-- A source that is there may be rewritten. -/
theorem put (h : disk.Rewrites other) {path : FilePath} (hsource : isSource path = true)
    (hfile : disk.isFile path = true) (bytes : ByteArray) :
    disk.Rewrites (other.put path bytes) := by
  refine ⟨h.toSameFiles.put hfile bytes, fun at' hspared => ?_⟩
  have hne : at' ≠ path := by
    rintro rfl
    exact Bool.false_ne_true (hspared.symm.trans hsource)
  rw [lookup_put, if_neg hne, h.spared at' hspared]

theorem ignoreRules (h : disk.Rewrites other) {path : FilePath} (hspared : isSource path = false) :
    other.ignoreRules path = disk.ignoreRules path := by
  rw [Disk.ignoreRules, Disk.ignoreRules, h.find (h.spared path hspared)]

/-- No ignore file is a source. -/
theorem ignoreLevel (h : disk.Rewrites other) (folder : FilePath) :
    other.ignoreLevel folder = disk.ignoreLevel folder := by
  have hrules {names : FilePath} (hne : names ≠ []) (hspared : isSource names = false) :
      other.ignoreRules (folder ++ names) = disk.ignoreRules (folder ++ names) :=
    h.ignoreRules ((isSource_append folder hne).trans hspared)
  rw [Disk.ignoreLevel, Disk.ignoreLevel, hrules (List.cons_ne_nil _ _) (by decide),
    hrules (List.cons_ne_nil _ _) (by decide), hrules (List.cons_ne_nil _ _) (by decide),
    hrules (List.cons_ne_nil _ _) (by decide), h.isThere]

theorem isShown (h : disk.Rewrites other) (patterns : List IgnoreRule) (root path : FilePath) :
    other.isShown patterns root path = disk.isShown patterns root path := by
  have hlevels : other.ignoreLevel = disk.ignoreLevel := funext h.ignoreLevel
  have hverdict (isFolder : Bool) : other.verdict? path isFolder = disk.verdict? path isFolder := by
    rw [Disk.verdict?, Disk.verdict?, hlevels]
  rw [Disk.isShown, Disk.isShown, h.isFolder]
  simp only [hverdict]

end Rewrites

/-- Where nothing differs, no file that is no source does. -/
theorem Alike.rewrites (h : disk.Alike other) : disk.Rewrites other :=
  ⟨h.sameFiles, fun path _ => (h.lookup path).symm⟩

/-- What a walk finds. -/
theorem mem_walk {patterns : List String} {root written : String} :
    written ∈ disk.walk patterns root ↔ ∃ path ∈ disk.files.map Prod.fst,
      ((disk.locate root).isPrefixOf path && isSource path
        && (FilePath.inits path).all fun above => above.length ≤ (disk.locate root).length
          || disk.isShown (configuredRules patterns) (disk.locate root) above) = true
      ∧ (path.drop (disk.locate root).length).foldl FilePath.join root = written := by
  simp only [walk, List.mem_map, List.mem_filter]
  constructor
  · rintro ⟨file, ⟨hfile, hshown⟩, hwritten⟩
    exact ⟨file.1, ⟨file, hfile, rfl⟩, hshown, hwritten⟩
  · rintro ⟨path, ⟨file, hfile, rfl⟩, hshown, hwritten⟩
    exact ⟨file, ⟨hfile, hshown⟩, hwritten⟩

/-- The written path of what is found leads to a source. -/
theorem isSource_of_mem_walk (hplain : disk.Plain) {patterns : List String} {root written : String}
    (h : written ∈ disk.walk patterns root) : isSource (disk.locate written) = true := by
  obtain ⟨path, hpath, hshown, rfl⟩ := mem_walk.1 h
  simp only [Bool.and_eq_true, List.isPrefixOf_iff_prefix] at hshown
  obtain ⟨⟨⟨names, rfl⟩, hsource⟩, -⟩ := hshown
  rw [List.drop_left, disk.locate_foldl_join fun name hname =>
    hplain _ hpath name (List.mem_append_right _ hname)]
  exact hsource

/-- What a path stands for is a source, if a file that it leads to is. -/
theorem isSource_locate (hplain : disk.Plain) {config : Config} {target written : String}
    (htarget : disk.isFile (disk.locate target) = true → isSource (disk.locate target) = true)
    (h : written ∈ disk.sources config target) : isSource (disk.locate written) = true := by
  rw [sources] at h
  split at h
  · next hfile => exact List.mem_singleton.1 h ▸ htarget hfile
  · exact isSource_of_mem_walk hplain h

namespace Rewrites

/-- The same sources are found. -/
theorem mem_sources (h : disk.Rewrites other) {config : Config} {target written : String} :
    written ∈ other.sources config target ↔ written ∈ disk.sources config target := by
  rw [sources, sources, h.locate, h.isFile]
  split
  · exact .rfl
  · rw [mem_walk, mem_walk, h.locate]
    simp only [h.files, h.isShown]

/-! ### Configurations -/

/-- The same configuration holds. -/
theorem loadOrDefault (h : disk.Rewrites other) (folder : String) :
    Config.loadOrDefault other folder = Config.loadOrDefault disk folder := by
  have hplain : FilePath.IsPlain Config.fileName := ⟨by decide, by decide, by decide, by decide⟩
  have hspared : isSource (disk.locate (Config.fileIn folder)) = false := by
    rw [Config.fileIn, disk.locate_join hplain, isSource_append _ (List.cons_ne_nil _ _)]
    decide
  rw [Config.loadOrDefault, Config.loadOrDefault, Config.load, Config.load]
  simp only [h.locate, h.isThere, h.read hspared]

end Rewrites

end Disk

end SharpLint

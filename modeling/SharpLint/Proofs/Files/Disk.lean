import SharpLint.Files.SourceFile
import SharpLint.Proofs.Files.Paths

/-!
# Disks That Hold the Same

A disk keeps its files in a list, and writing a file moves it to the end. Two
disks are alike if they hold the same files, in whatever order; nothing that is
read of a disk tells alike disks apart. Files that are there can be written in
any order, if what is written to one path is always the same.

## Main definitions

* `Disk.SameFiles`: two disks have the same files and folders.
* `Disk.Alike`: two disks hold the same.

## Theorems

* `Disk.lookup_put`: What a disk holds after a file is put.
* `Disk.toOption_readSource_eq`: What is read of a source.
* `Disk.SameFiles.find`: What is at a path shows in the file there.
* `Disk.Alike.readSource`: Alike disks read alike.
* `Disk.put_comm`: Files may be put in any order.
-/

namespace SharpLint

namespace Disk

variable {disk other : Disk}

/-! ### What is put -/

theorem lookup_filter_ne (files : List (FilePath × ByteArray)) {path at' : FilePath}
    (hne : at' ≠ path) :
    (files.filter fun file => file.1 != path).lookup at' = files.lookup at' := by
  induction files with
  | nil => rfl
  | cons file files ih =>
      obtain ⟨key, bytes⟩ := file
      by_cases hkey : key = path
      · rw [List.filter_cons_of_neg (by simp only [hkey, bne_self_eq_false, Bool.false_eq_true,
          not_false_eq_true]), ih, List.lookup_cons, beq_false_of_ne (hkey ▸ hne)]
      · rw [List.filter_cons_of_pos (by simpa only [bne_iff_ne] using hkey), List.lookup_cons,
          List.lookup_cons, ih]

theorem lookup_filter_self (files : List (FilePath × ByteArray)) (path : FilePath) :
    (files.filter fun file => file.1 != path).lookup path = none := by
  rw [List.lookup_eq_none_iff]
  intro file hfile
  exact bne_iff_ne.2 (Ne.symm (bne_iff_ne.1 (List.mem_filter.1 hfile).2))

/-- What a disk holds after a file is put. -/
theorem lookup_put (disk : Disk) (path at' : FilePath) (bytes : ByteArray) :
    (disk.put path bytes).files.lookup at'
      = if at' = path then some bytes else disk.files.lookup at' := by
  rw [put]
  simp only [List.lookup_append]
  by_cases hpath : at' = path
  · subst hpath
    rw [lookup_filter_self, Option.none_or, List.lookup_cons_self, if_pos rfl]
  · rw [lookup_filter_ne _ hpath, List.lookup_cons, beq_false_of_ne hpath, if_neg hpath]
    exact Option.or_none

/-! ### What is read -/

theorem isFile_iff {path : FilePath} :
    disk.isFile path = true ↔ ∃ bytes, disk.files.lookup path = some bytes := by
  rw [isFile, find]
  cases disk.files.lookup path with
  | some bytes => simp only [Option.some.injEq, exists_eq']
  | none =>
      simp only [reduceCtorEq, exists_false, iff_false]
      cases disk.isFolder path <;> exact Bool.false_ne_true

/-- A source is read where a file is there and its bytes are text. -/
theorem toOption_readSource_eq (mapped : Bool) (path : FilePath) :
    (disk.readSource mapped path).toOption = (disk.files.lookup path).bind fun bytes =>
      (Utf8.decode bytes.toList).toOption.map SourceFile.ofContent := by
  rw [readSource, Disk.bytes, find]
  cases disk.files.lookup path with
  | some bytes =>
      simp only [Option.bind_some]
      cases Utf8.decode bytes.toList <;> rfl
  | none => cases disk.isFolder path <;> rfl

/-! ### Disks with the same files -/

/-- A file is there if it is among the files. -/
theorem isFile_iff_mem {path : FilePath} :
    disk.isFile path = true ↔ path ∈ disk.files.map Prod.fst := by
  have hsome : disk.isFile path = true ↔ ¬disk.files.lookup path = none := by
    rw [isFile_iff, ← Option.isSome_iff_exists, Option.isSome_iff_ne_none]
  rw [hsome, List.lookup_eq_none_iff, List.mem_map]
  simp only [bne_iff_ne, ne_eq, Classical.not_forall, Classical.not_not, exists_prop]
  exact exists_congr fun file => and_congr_right fun _ => eq_comm

theorem isThere_eq (path : FilePath) :
    disk.isThere path = (disk.isFile path || disk.isFolder path) := by
  rw [isThere, isFile, find]
  cases disk.files.lookup path with
  | some bytes => rfl
  | none => cases disk.isFolder path <;> rfl

/-- The folders and files are the same, whatever is in the files. -/
structure SameFiles (disk other : Disk) : Prop where
  here : other.here = disk.here
  folders : other.folders = disk.folders
  files : ∀ path, path ∈ other.files.map Prod.fst ↔ path ∈ disk.files.map Prod.fst

namespace SameFiles

protected theorem refl (disk : Disk) : disk.SameFiles disk :=
  ⟨rfl, rfl, fun _ => .rfl⟩

/-- A file that is there may be written. -/
theorem put (h : disk.SameFiles other) {path : FilePath} (hfile : disk.isFile path = true)
    (bytes : ByteArray) : disk.SameFiles (other.put path bytes) where
  here := h.here
  folders := h.folders
  files at' := by
    rw [isFile_iff_mem, ← h.files] at hfile
    rw [← h.files]
    simp only [Disk.put, List.map_append, List.mem_append, List.map_cons, List.map_nil,
      List.mem_singleton, List.mem_map, List.mem_filter, bne_iff_ne]
    constructor
    · rintro (⟨file, ⟨hfile, -⟩, rfl⟩ | rfl)
      · exact ⟨file, hfile, rfl⟩
      · exact List.mem_map.1 hfile
    · rintro ⟨file, hfile, rfl⟩
      exact (Classical.em (file.1 = path)).symm.imp_left fun hne => ⟨file, ⟨hfile, hne⟩, rfl⟩

theorem locate (h : disk.SameFiles other) (text : String) :
    other.locate text = disk.locate text := by
  rw [Disk.locate, Disk.locate, h.here]

/-- What is asked of the paths of files is answered alike. -/
theorem any_files (h : disk.SameFiles other) (p : FilePath → Bool) :
    (other.files.any fun file => p file.1) = disk.files.any fun file => p file.1 := by
  have hany (files : List (FilePath × ByteArray)) :
      (files.any fun file => p file.1) = (files.map Prod.fst).any p := List.any_map.symm
  rw [hany, hany, Bool.eq_iff_iff, List.any_eq_true, List.any_eq_true]
  simp only [h.files]

theorem isFolder (h : disk.SameFiles other) (path : FilePath) :
    other.isFolder path = disk.isFolder path := by
  rw [Disk.isFolder, Disk.isFolder, h.folders, h.any_files fun file =>
    path.isPrefixOf file && path.length < file.length]

theorem isFile (h : disk.SameFiles other) (path : FilePath) :
    other.isFile path = disk.isFile path := by
  rw [Bool.eq_iff_iff, isFile_iff_mem, isFile_iff_mem, h.files]

theorem isThere (h : disk.SameFiles other) (path : FilePath) :
    other.isThere path = disk.isThere path := by
  rw [isThere_eq, isThere_eq, h.isFile, h.isFolder]

/-- The same is at a path if the same is in a file there. -/
theorem find (h : disk.SameFiles other) {path : FilePath}
    (hlookup : other.files.lookup path = disk.files.lookup path) :
    other.find path = disk.find path := by
  rw [Disk.find, Disk.find, hlookup, h.isFolder]

theorem bytes (h : disk.SameFiles other) {path : FilePath}
    (hlookup : other.files.lookup path = disk.files.lookup path) :
    other.bytes path = disk.bytes path := by
  rw [Disk.bytes, Disk.bytes, h.find hlookup, Disk.blocked, Disk.blocked,
    h.any_files fun file => file.isPrefixOf path && file.length < path.length]

end SameFiles

/-! ### Alike disks -/

/-- The disks hold the same folders and files. -/
structure Alike (disk other : Disk) : Prop where
  here : disk.here = other.here
  folders : disk.folders = other.folders
  files : disk.files.Perm other.files
  lookup : ∀ path, disk.files.lookup path = other.files.lookup path

namespace Alike

protected theorem refl (disk : Disk) : disk.Alike disk :=
  ⟨rfl, rfl, List.Perm.refl _, fun _ => rfl⟩

protected theorem symm (h : disk.Alike other) : other.Alike disk :=
  ⟨h.here.symm, h.folders.symm, h.files.symm, fun path => (h.lookup path).symm⟩

protected theorem trans {third : Disk} (h : disk.Alike other) (h' : other.Alike third) :
    disk.Alike third :=
  ⟨h.here.trans h'.here, h.folders.trans h'.folders, h.files.trans h'.files,
    fun path => (h.lookup path).trans (h'.lookup path)⟩

/-- Alike disks have the same files. -/
theorem sameFiles (h : disk.Alike other) : disk.SameFiles other :=
  ⟨h.here.symm, h.folders.symm, fun _ => (h.files.map Prod.fst).mem_iff.symm⟩

theorem locate (h : disk.Alike other) (text : String) : disk.locate text = other.locate text :=
  (h.sameFiles.locate text).symm

theorem isFile (h : disk.Alike other) (path : FilePath) :
    disk.isFile path = other.isFile path :=
  (h.sameFiles.isFile path).symm

theorem bytes (h : disk.Alike other) (path : FilePath) : disk.bytes path = other.bytes path :=
  (h.sameFiles.bytes (h.lookup path).symm).symm

/-- Alike disks read alike. -/
theorem readSource (h : disk.Alike other) (mapped : Bool) (path : FilePath) :
    disk.readSource mapped path = other.readSource mapped path := by
  rw [Disk.readSource, Disk.readSource, h.bytes]

/-- A file may be put on alike disks. -/
theorem put (h : disk.Alike other) (path : FilePath) (bytes : ByteArray) :
    (disk.put path bytes).Alike (other.put path bytes) where
  here := h.here
  folders := h.folders
  files := (h.files.filter _).append_right _
  lookup at' := by rw [lookup_put, lookup_put, h.lookup]

end Alike

/-- Files may be put in any order. -/
theorem put_comm (disk : Disk) {path path' : FilePath} {bytes bytes' : ByteArray}
    (hsame : path = path' → bytes = bytes') :
    ((disk.put path bytes).put path' bytes').Alike ((disk.put path' bytes').put path bytes) := by
  by_cases hpath : path = path'
  · subst hpath
    rw [hsame rfl]
    exact .refl _
  · refine ⟨rfl, rfl, ?_, fun at' => ?_⟩
    · have hkept : (path != path') = true := bne_iff_ne.2 hpath
      have hkept' : (path' != path) = true := bne_iff_ne.2 (Ne.symm hpath)
      simp only [Disk.put, List.filter_append, List.filter_filter, List.append_assoc,
        List.filter_cons, hkept, hkept', List.filter_nil, if_true, List.singleton_append]
      refine List.Perm.append (.of_eq (List.filter_congr fun file _ => Bool.and_comm _ _)) ?_
      exact List.Perm.swap _ _ _
    · simp only [lookup_put]
      by_cases hat : at' = path'
      · rw [if_pos hat, if_neg (hat ▸ Ne.symm hpath), if_pos hat]
      · rw [if_neg hat, if_neg hat]

end Disk

end SharpLint

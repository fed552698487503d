import Mathlib.Data.String.Basic
import SharpLint.Files.Disk

/-!
# Written Paths

A name on the way to a file is plain: it is not empty, names no folder by dots,
and holds no slash. A plain name that is put behind the written path of a folder
leads on from where the folder is, so a path that is written name by name leads
where the names say. Written paths are compared by their parts, which come in
one order.

## Main definitions

* `FilePath.IsPlain`: a name that a file or folder can have.
* `Disk.Plain`: the files of a disk are behind plain names.

## Theorems

* `FilePath.split_injective`: A written path is known by its parts.
* `FilePath.before_total`, `FilePath.before_trans`, `FilePath.before_antisymm`:
  Paths come in one order.
* `FilePath.split_append`: The parts of a path behind a folder.
* `Disk.locate_join`: A plain name leads on from a folder.
* `Disk.locate_foldl_join`: So do several.
-/

namespace SharpLint

namespace FilePath

/-! ### Parts of paths -/

/-- A written path is known by its parts. -/
theorem split_injective {mark : Char} {a b : String} (h : split mark a = split mark b) :
    a = b := by
  have hparts : a.toList.splitOn mark = b.toList.splitOn mark :=
    (List.map_inj_right fun _ _ => String.ofList_injective).1 h
  have hlist := congrArg (List.intercalate [mark]) hparts
  rw [List.intercalate_splitOn, List.intercalate_splitOn] at hlist
  exact String.toList_injective hlist

theorem before_cons {a b : String} {as bs : FilePath} :
    before (a :: as) (b :: bs) = true ↔ a < b ∨ a = b ∧ before as bs = true := by
  rw [before, Bool.or_eq_true, Bool.and_eq_true, decide_eq_true_eq, beq_iff_eq]

/-- Of two paths one comes before the other. -/
theorem before_total : ∀ a b : FilePath, before a b = true ∨ before b a = true
  | [], _ => .inl rfl
  | _ :: _, [] => .inr rfl
  | a :: as, b :: bs => by
      rw [before_cons, before_cons]
      rcases lt_trichotomy a b with hlt | rfl | hlt
      · exact .inl (.inl hlt)
      · exact (before_total as bs).imp (fun h => .inr ⟨rfl, h⟩) fun h => .inr ⟨rfl, h⟩
      · exact .inr (.inl hlt)

theorem before_trans : ∀ a b c : FilePath,
    before a b = true → before b c = true → before a c = true
  | [], _, _, _, _ => rfl
  | _ :: _, [], _, hab, _ => absurd hab Bool.false_ne_true
  | _ :: _, _ :: _, [], _, hbc => absurd hbc Bool.false_ne_true
  | a :: as, b :: bs, c :: cs, hab, hbc => by
      rw [before_cons] at hab hbc ⊢
      rcases hab with hab | ⟨rfl, hab⟩
      · rcases hbc with hbc | ⟨rfl, -⟩
        · exact .inl (lt_trans hab hbc)
        · exact .inl hab
      · exact hbc.imp_right fun hbc => ⟨hbc.1, before_trans as bs cs hab hbc.2⟩

/-- Two paths that come before each other are the same. -/
theorem before_antisymm : ∀ a b : FilePath, before a b = true → before b a = true → a = b
  | [], [], _, _ => rfl
  | [], _ :: _, _, hba => absurd hba Bool.false_ne_true
  | _ :: _, [], hab, _ => absurd hab Bool.false_ne_true
  | a :: as, b :: bs, hab, hba => by
      rw [before_cons] at hab hba
      rcases hab with hab | ⟨rfl, hab⟩
      · rcases hba with hba | ⟨rfl, -⟩
        · exact absurd hba (lt_asymm hab)
        · exact absurd hab (lt_irrefl _)
      · rcases hba with hba | ⟨-, hba⟩
        · exact absurd hba (lt_irrefl _)
        · rw [before_antisymm as bs hab hba]

/-! ### Plain names -/

/-- A name that a file or folder can have. -/
structure IsPlain (name : String) : Prop where
  ne_empty : name ≠ ""
  ne_dot : name ≠ "."
  ne_dots : name ≠ ".."
  noSlash : '/' ∉ name.toList

variable {name : String}

theorem step_plain (h : IsPlain name) (path : FilePath) : step path name = path ++ [name] := by
  have hstay : ¬(decide (name = "") || decide (name = ".")) = true := by
    simp only [Bool.or_eq_true, decide_eq_true_eq, not_or]
    exact ⟨h.ne_empty, h.ne_dot⟩
  rw [step, if_neg hstay, if_neg h.ne_dots]

theorem isFromTop_plain (h : IsPlain name) : isFromTop name = false := by
  rw [isFromTop, beq_eq_false_iff_ne]
  exact fun hhead => h.noSlash (List.mem_of_head? hhead)

/-- A text without marks is its only part. -/
theorem split_singleton {mark : Char} {text : String} (h : mark ∉ text.toList) :
    split mark text = [text] := by
  rw [split, List.splitOn_eq_singleton h, List.map_singleton, String.ofList_toList]

/-- The parts of two texts with a mark between them. -/
theorem split_append (mark : Char) (a b : String) :
    split mark (a ++ String.ofList [mark] ++ b) = split mark a ++ split mark b := by
  rw [split, split, split, ← List.map_append]
  refine congrArg (List.map String.ofList) ?_
  rw [String.toList_append, String.toList_append, String.toList_ofList, List.append_assoc,
    List.singleton_append, List.splitOn_append_cons_self]

/-- A path behind another starts where that does. -/
theorem isFromTop_append {a : String} (h : a ≠ "") (b : String) :
    isFromTop (a ++ b) = isFromTop a := by
  have hne : a.toList ≠ [] := fun hnil => h (String.toList_injective hnil)
  rw [isFromTop, isFromTop, String.toList_append, List.head?_append_of_ne_nil _ hne]

end FilePath

namespace Disk

open FilePath

variable {disk : Disk} {name : String}

/-- A plain name leads on from a folder. -/
theorem locate_join (disk : Disk) (h : IsPlain name) (folder : String) :
    disk.locate (join folder name) = disk.locate folder ++ [name] := by
  have hbehind (path : FilePath) (front : List String) :
      (front ++ split '/' name).foldl step path = front.foldl step path ++ [name] := by
    rw [split_singleton h.noSlash, List.foldl_append, List.foldl_cons, List.foldl_nil, step_plain h]
  rw [join, isFromTop_plain h, Bool.or_false]
  split
  · next hempty =>
    rw [decide_eq_true_eq] at hempty
    rw [hempty, locate, isFromTop_plain h]
    exact hbehind _ []
  · next hne =>
    rw [decide_eq_true_eq] at hne
    split
    · next hslash =>
      -- The slash at the end of the folder stands before the name.
      rw [beq_iff_eq] at hslash
      obtain ⟨front, hfront⟩ := List.getLast?_eq_some_iff.1 hslash
      have hparts : split '/' folder = split '/' (String.ofList front) ++ [""] := by
        rw [← @split_singleton '/' "" List.not_mem_nil, ← split_append]
        refine congrArg (split '/') (String.toList_injective ?_)
        rw [hfront, String.toList_append, String.toList_append, String.toList_ofList,
          String.toList_ofList, String.toList_empty, List.append_nil]
      have hname : folder ++ name = String.ofList front ++ String.ofList ['/'] ++ name :=
        String.toList_injective (by
          rw [String.toList_append, hfront, String.toList_append, String.toList_append,
            String.toList_ofList, String.toList_ofList])
      have hstay (path : FilePath) : step path "" = path := rfl
      rw [locate, isFromTop_append hne, hname, split_append, hbehind, locate, hparts,
        List.foldl_append, List.foldl_cons, List.foldl_nil, hstay]
    · rw [locate, String.append_assoc, isFromTop_append hne, ← String.append_assoc]
      rw [show folder ++ "/" ++ name = folder ++ String.ofList ['/'] ++ name from rfl, split_append,
        hbehind]
      rfl

/-- Plain names lead on from a folder one after the other. -/
theorem locate_foldl_join (disk : Disk) {names : List String} (h : ∀ name ∈ names, IsPlain name)
    (folder : String) :
    disk.locate (names.foldl join folder) = disk.locate folder ++ names := by
  induction names generalizing folder with
  | nil => exact (List.append_nil _).symm
  | cons name names ih =>
      rw [List.foldl_cons, ih (fun other hother => h other (List.mem_cons_of_mem _ hother)),
        disk.locate_join (h name List.mem_cons_self), List.append_assoc, List.singleton_append]

/-- The files are behind plain names. -/
def Plain (disk : Disk) : Prop :=
  ∀ path ∈ disk.files.map Prod.fst, ∀ name ∈ path, IsPlain name

end Disk

end SharpLint

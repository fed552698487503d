import SharpLint.Files.Disk

/-!
# Source Files

A source file may begin with a byte order mark, which is no part of its text
and is put back when the file is written. A large file is read in another way
when that is asked for, which shows only in how a fault is reported.

## Main definitions

* `SourceFile`: a text with or without a byte order mark.
* `SourceFile.ofContent`, `SourceFile.content`: from and to what is in a file.
* `Disk.readSource`: reads a source file.
-/

namespace SharpLint

/-- The text of a source file, its byte order mark set apart. -/
structure SourceFile where
  text : Text
  hasMark : Bool
  deriving DecidableEq, Repr

namespace SourceFile

/-- The byte order mark. -/
def mark : Char := '\ufeff'

/-- The source file with the given content. -/
def ofContent : Text → SourceFile
  | [] => ⟨[], false⟩
  | c :: cs => if c = mark then ⟨cs, true⟩ else ⟨c :: cs, false⟩

/-- What is written to the file when its text becomes `text`. -/
def content (file : SourceFile) (text : Text) : Text :=
  if file.hasMark then mark :: text else text

theorem content_ofContent (content : Text) :
    (ofContent content).content (ofContent content).text = content := by
  cases content with
  | nil => rfl
  | cons c cs =>
    by_cases h : c = mark <;> simp [ofContent, SourceFile.content, h]

end SourceFile

namespace Disk

/-- The number of bytes up to which a file is not large. -/
def largeLimit : Nat := 1024 * 1024

/-- The source file at the path. With `mapped` set, a large file that is no
    text is reported with the place of the fault. -/
def readSource (disk : Disk) (mapped : Bool) (path : FilePath) : Except DiskFault SourceFile :=
  match disk.bytes path with
  | .error fault => .error fault
  | .ok bytes =>
    match Utf8.decode bytes.toList with
    | .ok text => .ok (.ofContent text)
    | .error fault =>
      .error (if mapped && largeLimit < bytes.size then .badBytes fault else .notText)

end Disk

end SharpLint

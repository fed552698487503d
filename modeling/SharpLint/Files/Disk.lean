import SharpLint.Files.Utf8

/-!
# Files and Folders

A disk holds files by their paths from its top. A folder is there when a file
was put into it or below it. Written paths start from the top or from the
folder where commands run.

## Main definitions

* `FilePath`: the names on the way to a file.
* `Disk`: the files and folders.
* `Disk.locate`: the path that a written path leads to.
* `Disk.find`: what is at a path.
* `Disk.read`, `Disk.write`, `Disk.remove`: the operations.
* `DiskFault`: why an operation fails.
-/

namespace SharpLint

/-- The names on the way to a file or folder. -/
abbrev FilePath := List String

namespace FilePath

/-- The parts of a written path, or of a name, between the marks in it. -/
def split (mark : Char) (text : String) : List String :=
  (text.toList.splitOn mark).map String.ofList

/-- Whether a written path starts from the top. -/
def isFromTop (text : String) : Bool :=
  text.toList.head? == some '/'

/-- Goes on from a path by one part of a written path. -/
def step (path : FilePath) (part : String) : FilePath :=
  if part = "" || part = "." then path
  else if part = ".." then path.dropLast
  else path ++ [part]

/-- A name behind the written path of a folder. -/
def join (folder name : String) : String :=
  if folder = "" || isFromTop name then name
  else if folder.toList.getLast? == some '/' then folder ++ name
  else folder ++ "/" ++ name

/-- The written path of the folder that a file is in. -/
def parent (text : String) : String :=
  match (split '/' text).dropLast with
  | [""] => "/"
  | parts => String.intercalate "/" parts

/-- The folders on the way to a path and the path itself, outermost first. -/
def inits : FilePath → List FilePath
  | [] => [[]]
  | name :: names => [] :: (inits names).map (name :: ·)

/-- Whether one path comes before another, or is the same. -/
def before : FilePath → FilePath → Bool
  | [], _ => true
  | _ :: _, [] => false
  | a :: as, b :: bs => a < b || (a == b && before as bs)

end FilePath

/-- Why an operation on files fails. -/
inductive DiskFault
  | missing
  | isFolder
  /-- A file stands on the way where a folder should be. -/
  | notFolder
  /-- The bytes of the file are no text. -/
  | notText
  /-- The bytes of a large file are no text. -/
  | badBytes (fault : Utf8Fault)
  deriving DecidableEq, Repr

/-- The fault in words. -/
def DiskFault.message : DiskFault → String
  | .missing => "No such file or directory (os error 2)"
  | .isFolder => "Is a directory (os error 21)"
  | .notFolder => "Not a directory (os error 20)"
  | .notText => "stream did not contain valid UTF-8"
  | .badBytes fault => fault.message

/-- The fault of an operation on a path, in words. -/
def DiskFault.messageAt (path : String) (fault : DiskFault) : String :=
  "I/O error on " ++ path ++ ": " ++ fault.message

/-- Files and folders. -/
structure Disk where
  /-- The folder where commands run. -/
  here : FilePath := []
  files : List (FilePath × ByteArray) := []
  /-- Folders that are there besides those with files in them. -/
  folders : List FilePath := []
  deriving Inhabited

namespace Disk

/-- The path that a written path leads to. -/
def locate (disk : Disk) (text : String) : FilePath :=
  (FilePath.split '/' text).foldl FilePath.step
    (if FilePath.isFromTop text then [] else disk.here)

/-- What is at a path. -/
inductive Entry
  | file (bytes : ByteArray)
  | folder
  | none

/-- Whether a folder is at the path. -/
def isFolder (disk : Disk) (path : FilePath) : Bool :=
  path.isEmpty || disk.folders.any (path.isPrefixOf ·)
    || disk.files.any fun file => path.isPrefixOf file.1 && path.length < file.1.length

/-- What is at the path. -/
def find (disk : Disk) (path : FilePath) : Entry :=
  match disk.files.lookup path with
  | some bytes => .file bytes
  | Option.none => if disk.isFolder path then .folder else .none

/-- Whether something is at the path. -/
def isThere (disk : Disk) (path : FilePath) : Bool :=
  match disk.find path with
  | .none => false
  | _ => true

/-- Whether a file is at the path. -/
def isFile (disk : Disk) (path : FilePath) : Bool :=
  match disk.find path with
  | .file _ => true
  | _ => false

/-- Whether a file stands on the way to the path. -/
def blocked (disk : Disk) (path : FilePath) : Bool :=
  disk.files.any fun file => file.1.isPrefixOf path && file.1.length < path.length

/-- The bytes of the file at the path. -/
def bytes (disk : Disk) (path : FilePath) : Except DiskFault ByteArray :=
  match disk.find path with
  | .file bytes => .ok bytes
  | .folder => .error .isFolder
  | .none => .error (if disk.blocked path then .notFolder else .missing)

/-- The text of the file at the path. -/
def read (disk : Disk) (path : FilePath) : Except DiskFault Text :=
  match disk.bytes path with
  | .error fault => .error fault
  | .ok bytes =>
    match Utf8.decode bytes.toList with
    | .ok text => .ok text
    | .error _ => .error .notText

/-- The disk with a file put at the path, whatever folders it takes. -/
def put (disk : Disk) (path : FilePath) (bytes : ByteArray) : Disk :=
  { disk with files := disk.files.filter (fun file => file.1 != path) ++ [(path, bytes)] }

/-- The disk after a text is written to the path. Folders are not made. -/
def write (disk : Disk) (path : FilePath) (text : Text) : Except DiskFault Disk :=
  match disk.find path with
  | .folder => .error .isFolder
  | .file _ => .ok (disk.put path (Utf8.encode text))
  | .none =>
    if disk.isFolder path.dropLast then .ok (disk.put path (Utf8.encode text))
    else .error (if disk.blocked path then .notFolder else .missing)

/-- The disk without the file at the path; its folder stays. -/
def remove (disk : Disk) (path : FilePath) : Disk :=
  { disk with
    files := disk.files.filter fun file => file.1 != path
    folders := path.dropLast :: disk.folders }

/-- The files that are new or have other bytes than on an older disk. -/
def changes (disk older : Disk) : List (FilePath × ByteArray) :=
  disk.files.filter fun file => older.files.lookup file.1 != some file.2

end Disk

end SharpLint

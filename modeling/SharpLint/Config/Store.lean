import SharpLint.Config.Codec
import SharpLint.Files.Disk

/-!
# Configuration Files

A folder has its configuration in a file of a fixed name. A folder without the
file has the default configuration.

## Main definitions

* `Config.load`: the configuration of a folder.
* `Config.loadOrDefault`: the same, with the default for one that is spoilt.
* `Config.create`: writes the default configuration into a folder.
-/

namespace SharpLint

/-- Why a configuration is not loaded or not created. -/
inductive ConfigFailure
  | disk (path : String) (fault : DiskFault)
  | invalid (path : String) (fault : ConfigFault)
  /-- The file is there already. -/
  | taken (path : String)
  deriving Repr

/-- The failure in words, where it has words. -/
def ConfigFailure.message? : ConfigFailure → Option String
  | .disk path fault => some (fault.messageAt path)
  | .invalid path fault =>
    fault.message?.map fun message => "invalid configuration in " ++ path ++ ": " ++ message
  | .taken path => some ("invalid configuration in " ++ path ++ ": file already exists")

namespace Config

/-- The name of the file that a folder has its configuration in. -/
def fileName : String := ".dslint.toml"

/-- The written path of the configuration of a folder. -/
def fileIn (folder : String) : String :=
  FilePath.join folder fileName

/-- The configuration of a folder. -/
def load (disk : Disk) (folder : String) : Except ConfigFailure Config :=
  let path := fileIn folder
  if disk.isThere (disk.locate path) then
    match disk.read (disk.locate path) with
    | .error fault => .error (.disk path fault)
    | .ok text =>
      match parse text with
      | .error fault => .error (.invalid path fault)
      | .ok config => .ok config
  else .ok {}

/-- The configuration of a folder, or the default where that is spoilt. -/
def loadOrDefault (disk : Disk) (folder : String) : Config :=
  (load disk folder).toOption.getD {}

/-- Writes the default configuration into a folder that has none. The answer
    is the path of the file, and the disk with it. -/
def create (disk : Disk) (folder : String) : Except ConfigFailure (String × Disk) :=
  let path := fileIn folder
  if disk.isThere (disk.locate path) then .error (.taken path)
  else
    match disk.write (disk.locate path) ((write? {}).getD []) with
    | .ok disk => .ok (path, disk)
    | .error fault => .error (.disk path fault)

end Config

end SharpLint

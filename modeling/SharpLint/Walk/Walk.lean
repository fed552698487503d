import SharpLint.Files.Disk
import SharpLint.Walk.IgnoreRule

/-!
# Walks

A walk finds the sources below a folder. It passes over hidden files and what
ignore files and the patterns of the configuration leave out; a folder that is
left out is left out with everything in it. The folder or file that a walk
starts from is never left out.

## Main definitions

* `IgnoreLevel`: the ignore rules of one folder.
* `Disk.verdict?`: what the ignore files say about a path.
* `Disk.isShown`: whether a walk goes on with a path.
* `Disk.walk`: the sources below a folder.
-/

namespace SharpLint

/-- The ignore rules of one folder. -/
structure IgnoreLevel where
  folder : FilePath
  /-- Rules for this program. -/
  own : List IgnoreRule
  /-- Rules for any program. -/
  shared : List IgnoreRule
  /-- Rules for the files of a repository. -/
  tracked : List IgnoreRule
  /-- Rules for one copy of a repository. -/
  untracked : List IgnoreRule
  /-- Whether the folder is the top of a repository. -/
  isRepository : Bool

namespace IgnoreLevel

/-- The levels up to the top of the innermost repository. -/
def upToRepository : List IgnoreLevel → List IgnoreLevel
  | [] => []
  | level :: levels => if level.isRepository then [level] else level :: upToRepository levels

/-- What one kind of rules says about a path, the innermost folder first. -/
def verdictOf? (rules : IgnoreLevel → List IgnoreRule) (levels : List IgnoreLevel)
    (path : FilePath) (isFolder : Bool) : Option Verdict :=
  levels.findSome? fun level =>
    IgnoreRule.verdict? (rules level)
      (String.intercalate "/" (path.drop level.folder.length)) isFolder

/-- What the levels say about a path. The rules of repositories count only
    within one. -/
def verdict? (levels : List IgnoreLevel) (path : FilePath) (isFolder : Bool) : Option Verdict :=
  let tracked := if levels.any IgnoreLevel.isRepository then upToRepository levels else []
  verdictOf? IgnoreLevel.own levels path isFolder
    <|> verdictOf? IgnoreLevel.shared levels path isFolder
    <|> verdictOf? IgnoreLevel.tracked tracked path isFolder
    <|> verdictOf? IgnoreLevel.untracked tracked path isFolder

end IgnoreLevel

namespace Disk

/-- The rules in the ignore file at the path; none if there is no file. -/
def ignoreRules (disk : Disk) (path : FilePath) : List IgnoreRule :=
  match disk.find path with
  | .file bytes => IgnoreRule.ofFile bytes
  | _ => []

/-- The ignore rules of a folder. -/
def ignoreLevel (disk : Disk) (folder : FilePath) : IgnoreLevel where
  folder
  own := disk.ignoreRules (folder ++ [".dslintignore"])
  shared := disk.ignoreRules (folder ++ [".ignore"])
  tracked := disk.ignoreRules (folder ++ [".gitignore"])
  untracked := disk.ignoreRules (folder ++ [".git", "info", "exclude"])
  isRepository := disk.isThere (folder ++ [".git"])

/-- What the ignore files in the folders around a path say about it. -/
def verdict? (disk : Disk) (path : FilePath) (isFolder : Bool) : Option Verdict :=
  let folders := (FilePath.inits path.dropLast).reverse
  IgnoreLevel.verdict? (folders.map disk.ignoreLevel) path isFolder

/-- Whether a walk from `root` goes on with a path below it. The patterns of
    the configuration come before all ignore files. -/
def isShown (disk : Disk) (patterns : List IgnoreRule) (root path : FilePath) : Bool :=
  let isFolder := disk.isFolder path
  let fromRoot := String.intercalate "/" (path.drop root.length)
  match IgnoreRule.verdict? patterns fromRoot isFolder with
  | some _ => false
  | none =>
    match disk.verdict? path isFolder with
    | some .ignored => false
    | some .kept => true
    | none => !((path.getLast?.getD "").startsWith ".")

/-- Whether a file is a source, by its name. -/
def isSource (path : FilePath) : Bool :=
  match (FilePath.split '.' (path.getLast?.getD "")).reverse with
  | "cs" :: rest => rest != [] && rest != [""]
  | _ => false

/-- The rules that the patterns of a configuration make. -/
def configuredRules (patterns : List String) : List IgnoreRule :=
  patterns.filterMap fun pattern => IgnoreRule.parse? false ('!' :: pattern.toList)

/-- The sources below the folder that is written `root`, or at it, as they are
    written then. -/
def walk (disk : Disk) (patterns : List String) (root : String) : List String :=
  let rules := configuredRules patterns
  let start := disk.locate root
  let sources := disk.files.filter fun file =>
    start.isPrefixOf file.1 && isSource file.1
      && (FilePath.inits file.1).all fun path =>
        path.length ≤ start.length || disk.isShown rules start path
  sources.map fun file => (file.1.drop start.length).foldl FilePath.join root

end Disk

end SharpLint

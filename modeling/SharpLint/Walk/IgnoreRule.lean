import SharpLint.Files.Utf8
import SharpLint.Text.Blank
import SharpLint.Walk.Glob

/-!
# Ignore Rules

One line of an ignore file is a glob with marks around it: `!` in front takes
paths back that earlier lines ignored, a slash in front or inside ties the
glob to the folder of the file, and a slash at the end makes it name folders
only. The last line that names a path decides about it.

## Main definitions

* `IgnoreRule`: a line of an ignore file.
* `IgnoreRule.parse?`: reads a line.
* `IgnoreRule.ofFile`: the rules in an ignore file.
* `IgnoreRule.verdict?`: what some rules say about a path.
-/

namespace SharpLint

/-- What a rule says about the paths that it names. -/
inductive Verdict
  | ignored
  | kept
  deriving DecidableEq, Repr

/-- A line of an ignore file. -/
structure IgnoreRule where
  glob : Glob
  verdict : Verdict
  /-- Whether the rule names folders only. -/
  foldersOnly : Bool

namespace IgnoreRule

/-- The line without `end_`, if it ends so. -/
def dropEnd? (line end_ : Text) : Option Text :=
  if end_.isSuffixOf line then some (line.take (line.length - end_.length)) else none

/-- The marks in front of a glob, with the rest of the line: what the rule
    says, and whether the glob is tied to its folder. -/
def readMarks (line : Text) : Verdict × Bool × Text :=
  match line with
  | '\\' :: '!' :: rest => (.ignored, false, '!' :: rest)
  | '\\' :: '#' :: rest => (.ignored, false, '#' :: rest)
  | '!' :: '/' :: rest => (.kept, true, rest)
  | '!' :: rest => (.kept, false, rest)
  | '/' :: rest => (.ignored, true, rest)
  | rest => (.ignored, false, rest)

/-- The glob of a line without its marks. One that is not tied to its folder
    and has no slash names paths in all folders below, and `**` at the end
    names what is in a folder but not the folder. -/
def globText (tied : Bool) (line : Text) : Text :=
  let crosses := "**/".toList.isPrefixOf line || line == ['*', '*']
  let glob := if tied || line.contains '/' || crosses then line else '*' :: '*' :: '/' :: line
  if "/**".toList.isSuffixOf glob then glob ++ ['/', '*'] else glob

/-- The rule on a line; none for a comment, an empty line and a glob that
    cannot be read. -/
def parse? (lenient : Bool) (line : Text) : Option IgnoreRule :=
  if ['#'].isPrefixOf line then none
  else
    let line := if "\\ ".toList.isSuffixOf line then line else Text.trimEnd line
    if line.isEmpty then none
    else
      let (verdict, tied, rest) := readMarks line
      let (foldersOnly, rest) :=
        match dropEnd? rest ['/'] with
        | some name => (true, (dropEnd? name ['\\']).getD name)
        | none => (false, rest)
      (Glob.parse? lenient (globText tied rest)).map fun glob => ⟨glob, verdict, foldersOnly⟩

/-- What the rules say about a path: the last one that names it decides. -/
def verdict? (rules : List IgnoreRule) (path : String) (isFolder : Bool) : Option Verdict :=
  (rules.reverse.find? fun rule =>
    (isFolder || !rule.foldersOnly) && rule.glob.admits path).map IgnoreRule.verdict

/-- The bytes of a file, line by line. -/
def splitLines : List UInt8 → List (List UInt8)
  | [] => [[]]
  | byte :: bytes =>
    match splitLines bytes with
    | [] => [[byte]]
    | line :: lines => if byte = 0x0A then [] :: line :: lines else (byte :: line) :: lines

/-- The lines of a file up to the first one that is no text. -/
def readLines : List (List UInt8) → List Text
  | [] => []
  | line :: lines =>
    match Utf8.decode line with
    | .ok text => (dropEnd? text ['\r']).getD text :: readLines lines
    | .error _ => []

/-- The rules in an ignore file. A byte order mark in front is passed over. -/
def ofFile (bytes : ByteArray) : List IgnoreRule :=
  match readLines (splitLines bytes.toList) with
  | [] => []
  | first :: lines => (first.dropWhile (· == '\ufeff') :: lines).filterMap (parse? true)

end IgnoreRule

end SharpLint

import SharpLint.Text.Basic

/-!
# Globs

A glob names many paths at once. It is matched against the bytes of a path,
of which only the slash has a meaning of its own: `*` and `?` stay within one
name, and `**` crosses folders.

## Main definitions

* `Glob`: a glob, piece by piece.
* `Glob.parse?`: reads a glob.
* `Glob.admits`: whether a path is one that the glob names.
-/

namespace SharpLint

/-- One piece of a glob. -/
inductive Glob.Piece
  /-- The character itself. -/
  | char (c : Char)
  /-- Any byte but a slash. -/
  | one
  /-- Any bytes without a slash. -/
  | many
  /-- A byte in one of the ranges, or in none of them. -/
  | oneOf (negated : Bool) (ranges : List (UInt8 × UInt8))
  /-- Any folders, or none, at the start. -/
  | anyFolders
  /-- A slash, and any folders behind it. -/
  | innerFolders
  /-- A slash, and whatever stands behind it. -/
  | contents
  /-- What one of the branches stands for; nothing if there is none. -/
  | anyOf (branches : List (List Glob.Piece))
  deriving Inhabited

/-- A glob, piece by piece. -/
abbrev Glob := List Glob.Piece

namespace Glob

/-! ### Matching -/

/-- The bytes of a path, or of a part of it. -/
abbrev Bytes := List UInt8

/-- The byte between the parts of a path. -/
def slash : UInt8 := 0x2F

/-- What may be left after some of the first bytes, all of which satisfy
    `p`. -/
def restsWhile (p : UInt8 → Bool) : Bytes → List Bytes
  | [] => [[]]
  | byte :: bytes => (byte :: bytes) :: if p byte then restsWhile p bytes else []

/-- What is left after each slash. -/
def restsAfterSlash : Bytes → List Bytes
  | [] => []
  | byte :: bytes =>
    if byte = slash then bytes :: restsAfterSlash bytes else restsAfterSlash bytes

/-- What is left after the bytes of `start`, if they come first. -/
def afterBytes? : Bytes → Bytes → Option Bytes
  | [], bytes => some bytes
  | a :: as, b :: bs => if a = b then afterBytes? as bs else none
  | _ :: _, [] => none

/-- Whether a byte lies in one of the ranges. -/
def inRanges (ranges : List (UInt8 × UInt8)) (byte : UInt8) : Bool :=
  ranges.any fun range => range.1 ≤ byte && byte ≤ range.2

mutual

/-- What may be left of the bytes after the piece. -/
def Piece.rests : Piece → Bytes → List Bytes
  | .char c, bytes => (afterBytes? (String.utf8EncodeChar c) bytes).toList
  | .one, byte :: bytes => if byte = slash then [] else [bytes]
  | .one, [] => []
  | .many, bytes => restsWhile (· != slash) bytes
  | .oneOf negated ranges, byte :: bytes =>
    if inRanges ranges byte == negated then [] else [bytes]
  | .oneOf .., [] => []
  | .anyFolders, bytes => bytes :: restsAfterSlash bytes
  | .innerFolders, byte :: bytes => if byte = slash then bytes :: restsAfterSlash bytes else []
  | .innerFolders, [] => []
  | .contents, byte :: bytes => if byte = slash then restsWhile (fun _ => true) bytes else []
  | .contents, [] => []
  | .anyOf branches, bytes => if branches.isEmpty then [bytes] else restsOfAny branches bytes

/-- What may be left of the bytes after all pieces. -/
def restsOfAll : List Piece → Bytes → List Bytes
  | [], bytes => [bytes]
  | piece :: pieces, bytes =>
    ((piece.rests bytes).eraseDups.flatMap (restsOfAll pieces)).eraseDups

/-- What may be left of the bytes after one of the branches. -/
def restsOfAny : List (List Piece) → Bytes → List Bytes
  | [], _ => []
  | branch :: branches, bytes => restsOfAll branch bytes ++ restsOfAny branches bytes

end

/-- Whether the glob is `**` and nothing else, which names every path. -/
def isEverything : Glob → Bool
  | [.anyFolders] => true
  | _ => false

/-- Whether the path is one that the glob names. -/
def admits (glob : Glob) (path : String) : Bool :=
  glob.isEverything || (restsOfAll glob path.toUTF8.toList).contains []

/-! ### Reading -/

/-- A character class, as far as it could be read. -/
inductive Class
  /-- The class is closed and takes `length` characters, its opening bracket
      not among them. -/
  | closed (ranges : List (Char × Char)) (length : Nat)
  | unclosed
  /-- A range ends before it starts. -/
  | reversed

/-- Reads on in a class. `ranges` holds what was read, last first; with
    `inRange` set, a hyphen has just been read behind it. -/
def readRanges (first inRange : Bool) (ranges : List (Char × Char)) (length : Nat) :
    Text → Class
  | [] => .unclosed
  | c :: rest =>
    if c = ']' && !first then
      .closed (if inRange then ('-', '-') :: ranges else ranges) (length + 1)
    else if inRange then
      match ranges with
      | [] => .reversed
      | (low, _) :: others =>
        if c < low then .reversed
        else readRanges false false ((low, c) :: others) (length + 1) rest
    else if c = '-' && !first then readRanges false true ranges (length + 1) rest
    else readRanges false false ((c, c) :: ranges) (length + 1) rest

/-- The bytes of a range of characters: those of both characters, and those
    between the last byte of the one and the first byte of the other. -/
def byteRanges (range : Char × Char) : List (UInt8 × UInt8) :=
  let low := String.utf8EncodeChar range.1
  let high := String.utf8EncodeChar range.2
  let own (bytes : Bytes) := bytes.map fun byte => (byte, byte)
  if range.1 = range.2 then own low
  else own low.dropLast ++ own high.tail
    ++ (low.getLast?.bind fun a => high.head?.map fun b => (a, b)).toList

/-- Reads the class behind its opening bracket. -/
def readClass : Text → Bool × Class
  | '!' :: rest => (true, readRanges true false [] 1 rest)
  | '^' :: rest => (true, readRanges true false [] 1 rest)
  | text => (false, readRanges true false [] 0 text)

/-- Braces that are open. -/
structure Braces where
  /-- The branches that are read. -/
  finished : List (List Piece)
  /-- The pieces before the brace, last first. -/
  before : List Piece

/-- Whether the piece stands for nothing at all. -/
def Piece.isNothing : Piece → Bool
  | .anyOf [] => true
  | _ => false

/-- The piece that some branches make; branches that stand for nothing are
    left out. -/
def Piece.ofBranches (branches : List (List Piece)) : Piece :=
  .anyOf (branches.filter fun branch => !branch.all Piece.isNothing)

/-- The pieces, last first, with `**` behind them in a place where it crosses
    folders. The slash before it becomes part of it. -/
def crossing (atEnd : Bool) : List Piece → List Piece
  | .anyFolders :: pieces => .anyFolders :: pieces
  | .contents :: pieces => .contents :: pieces
  | _ :: pieces => (if atEnd then .contents else .innerFolders) :: pieces
  | [] => []

/-- Reads `**`, with `rest` behind it: the pieces, last first, and how many
    characters of the rest belong to it. -/
def readStars (previous : Option Char) (inBraces : Bool) (pieces : List Piece) (rest : Text) :
    List Piece × Nat :=
  let plain := (.many :: .many :: pieces, 0)
  if pieces.isEmpty then
    match rest with
    | [] => ([.anyFolders], 0)
    | '/' :: _ => ([.anyFolders], 1)
    | _ => plain
  else if previous == some '/' || (inBraces && (previous == some ',' || previous == some '{'))
  then
    match rest with
    | [] => (crossing true pieces, 0)
    | '/' :: _ => (crossing false pieces, 1)
    | c :: _ => if inBraces && (c == ',' || c == '}') then (crossing true pieces, 0) else plain
  else plain

/-- Reads on in a glob. The next `skipped` characters are read already;
    `previous` is the last character that was read and `pieces` what came of
    it, last first. With `lenient` set, a bracket that is not closed stands for
    itself. -/
def readPieces (lenient : Bool) (skipped : Nat) (previous : Option Char) (pieces : List Piece)
    (open_ : List Braces) : Text → Option Glob
  | [] => if open_.isEmpty then some pieces.reverse else none
  | c :: rest =>
    match skipped with
    | n + 1 => readPieces lenient n (some c) pieces open_ rest
    | 0 =>
      let next (pieces : List Piece) := readPieces lenient 0 (some c) pieces open_ rest
      match c with
      | '?' => next (.one :: pieces)
      | '*' =>
        match rest with
        | '*' :: more =>
          let (pieces, more) := readStars previous (!open_.isEmpty) pieces more
          readPieces lenient (more + 1) (some c) pieces open_ rest
        | _ => next (.many :: pieces)
      | '[' =>
        match readClass rest with
        | (negated, .closed ranges length) =>
          readPieces lenient length (some c)
            (.oneOf negated (ranges.flatMap byteRanges) :: pieces) open_ rest
        | (_, .unclosed) => if lenient then next (.char c :: pieces) else none
        | (_, .reversed) => none
      | '\\' =>
        match rest with
        | [] => none
        | escaped :: _ => readPieces lenient 1 (some c) (.char escaped :: pieces) open_ rest
      | ',' =>
        match open_ with
        | [] => next (.char c :: pieces)
        | braces :: outer =>
          readPieces lenient 0 (some c) []
            (⟨braces.finished ++ [pieces.reverse], braces.before⟩ :: outer) rest
      | c =>
        if c = '{' then readPieces lenient 0 (some c) [] (⟨[], pieces⟩ :: open_) rest
        else if c = '}' then
          match open_ with
          | [] => none
          | braces :: outer =>
            readPieces lenient 0 (some c)
              (Piece.ofBranches (braces.finished ++ [pieces.reverse]) :: braces.before) outer rest
        else next (.char c :: pieces)

/-- The glob that a text writes. -/
def parse? (lenient : Bool) (text : Text) : Option Glob :=
  readPieces lenient 0 none [] [] text

end Glob

end SharpLint

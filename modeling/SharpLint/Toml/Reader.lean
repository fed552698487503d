import SharpLint.Decimal.Shortest
import SharpLint.Text.Basic
import SharpLint.Text.Digit
import SharpLint.Toml.Value

/-!
# Reading Configuration Files

A reader takes characters from the head of a text and answers with a value and
what follows it. A file is read as a whole or not at all: one fault anywhere
spoils it.

## Main definitions

* `Toml.Reader`: readers.
* `Toml.readValue`: reads a value.
* `Toml.parse?`: the entries of a file.
-/

namespace SharpLint

namespace Toml

/-- Takes a value from the head of a text. -/
abbrev Reader (α : Type) := Text → Option (α × Text)

/-- Drops spaces and tabs. -/
def skipPadding (text : Text) : Text :=
  text.dropWhile fun c => c == ' ' || c == '\t'

/-- Whether a comment may hold the character. -/
def isCommentChar (c : Char) : Bool :=
  c == '\t' || (0x20 ≤ c.toNat && c.toNat != 0x7F)

/-- Drops padding and a comment. -/
def skipComment (text : Text) : Text :=
  match skipPadding text with
  | '#' :: rest => rest.dropWhile isCommentChar
  | rest => rest

/-- What follows a line end. -/
def lineEnd? : Text → Option Text
  | '\n' :: rest => some rest
  | '\r' :: '\n' :: rest => some rest
  | _ => none

/-- Drops padding, comments and line ends, at most `fuel` lines. -/
def skipLines : Nat → Text → Text
  | 0, text => text
  | fuel + 1, text =>
    let rest := skipComment text
    match lineEnd? rest with
    | some next => skipLines fuel next
    | none => rest

/-! ### Strings -/

/-- The number that the first `n` characters write in hexadecimal. -/
def hexadecimal? (n : Nat) (text : Text) : Option Nat :=
  let digits := text.take n
  if digits.length = n && digits.all Digit.isHexadecimal then some (Digit.number 16 digits)
  else none

/-- The character with the given number. -/
def character? (n : Nat) : Option Char :=
  if h : n.isValidChar then some (Char.ofNatAux n h) else none

/-- The character behind a backslash. -/
def escape? : Reader Char
  | 'b' :: rest => some ('\x08', rest)
  | 't' :: rest => some ('\t', rest)
  | 'n' :: rest => some ('\n', rest)
  | 'f' :: rest => some ('\x0c', rest)
  | 'r' :: rest => some ('\r', rest)
  | '"' :: rest => some ('"', rest)
  | '\\' :: rest => some ('\\', rest)
  | 'u' :: rest => ((hexadecimal? 4 rest).bind character?).map fun c => (c, rest.drop 4)
  | 'U' :: rest => ((hexadecimal? 8 rest).bind character?).map fun c => (c, rest.drop 8)
  | _ => none

/-- The rest of a string on one line, with escapes. -/
def basicRest : Nat → Reader Text
  | 0, _ => none
  | fuel + 1, text =>
    match text with
    | '"' :: rest => some ([], rest)
    | '\\' :: rest =>
      match escape? rest with
      | none => none
      | some (c, rest) => (basicRest fuel rest).map fun (more, rest) => (c :: more, rest)
    | c :: rest =>
      if isCommentChar c then (basicRest fuel rest).map fun (more, rest) => (c :: more, rest)
      else none
    | [] => none

/-- The rest of a string on one line, without escapes. -/
def literalRest : Reader Text
  | [] => none
  | c :: rest =>
    if c == '\x27' then some ([], rest)
    else if isCommentChar c then (literalRest rest).map fun (more, rest) => (c :: more, rest)
    else none

/-- The quotes at the end of a string over many lines: up to two of them
    belong to it. -/
def closing? (quote : Char) (text : Text) : Option (Text × Text) :=
  let n := (text.takeWhile (· == quote)).length
  if n < 3 then none
  else
    let inside := min (n - 3) 2
    some (List.replicate inside quote, text.drop (inside + 3))

/-- Drops blanks and line ends behind a backslash that ends a line. -/
def skipBlanks (text : Text) : Text :=
  text.dropWhile fun c => c == ' ' || c == '\t' || c == '\n' || c == '\r'

/-- The rest of a string over many lines, with escapes. -/
def multilineBasicRest : Nat → Reader Text
  | 0, _ => none
  | fuel + 1, text =>
    match closing? '"' text with
    | some closed => some closed
    | none =>
      match lineEnd? text with
      | some rest => (multilineBasicRest fuel rest).map fun (more, rest) => ('\n' :: more, rest)
      | none =>
        match text with
        | '\\' :: rest =>
          match lineEnd? (skipPadding rest) with
          | some next => multilineBasicRest fuel (skipBlanks next)
          | none =>
            match escape? rest with
            | none => none
            | some (c, rest) =>
              (multilineBasicRest fuel rest).map fun (more, rest) => (c :: more, rest)
        | c :: rest =>
          if isCommentChar c then
            (multilineBasicRest fuel rest).map fun (more, rest) => (c :: more, rest)
          else none
        | [] => none

/-- The rest of a string over many lines, without escapes. -/
def multilineLiteralRest : Nat → Reader Text
  | 0, _ => none
  | fuel + 1, text =>
    match closing? '\x27' text with
    | some closed => some closed
    | none =>
      match lineEnd? text with
      | some rest => (multilineLiteralRest fuel rest).map fun (more, rest) => ('\n' :: more, rest)
      | none =>
        match text with
        | c :: rest =>
          if isCommentChar c then
            (multilineLiteralRest fuel rest).map fun (more, rest) => (c :: more, rest)
          else none
        | [] => none

/-- A line end just behind the opening quotes is left out. -/
def dropFirstLineEnd (text : Text) : Text :=
  (lineEnd? text).getD text

/-- A string on one line. -/
def lineString : Reader Text
  | '"' :: rest => basicRest (rest.length + 1) rest
  | '\x27' :: rest => literalRest rest
  | _ => none

/-- Any string. -/
def anyString (text : Text) : Option (Text × Text) :=
  if text.take 3 == ['"', '"', '"'] then
    multilineBasicRest (text.length + 1) (dropFirstLineEnd (text.drop 3))
  else if text.take 3 == ['\x27', '\x27', '\x27'] then
    multilineLiteralRest (text.length + 1) (dropFirstLineEnd (text.drop 3))
  else lineString text

/-! ### Numbers and dates -/

/-- Digits with single underscores between them. -/
def digitGroups (p : Char → Bool) : Reader Text
  | [] => none
  | c :: rest => if p c then some (go c rest) else none
where
  go (c : Char) : Text → Text × Text
    | '_' :: d :: rest =>
      if p d then
        let (more, rest) := go d rest
        (c :: more, rest)
      else ([c], '_' :: d :: rest)
    | d :: rest =>
      if p d then
        let (more, rest) := go d rest
        (c :: more, rest)
      else ([c], d :: rest)
    | [] => ([c], [])

/-- A sign, and whether it is a minus. -/
def signOf : Text → Bool × Text
  | '-' :: rest => (true, rest)
  | '+' :: rest => (false, rest)
  | text => (false, text)

/-- Digits of a number that do not begin with a superfluous zero. -/
def wholeDigits (text : Text) : Option (Text × Text) :=
  match text with
  | '0' :: rest => some (['0'], rest)
  | _ => digitGroups Digit.isDecimal text

/-- An integer that fits 64 bits with a sign. -/
def integerOf (negative : Bool) (value : Nat) : Option Toml :=
  if negative then if value ≤ integerLimit then some (.integer (-value)) else none
  else if value < integerLimit then some (.integer value) else none

/-- An integer. -/
def integer? : Reader Toml
  | '0' :: 'x' :: rest => based 16 Digit.isHexadecimal rest
  | '0' :: 'o' :: rest => based 8 (fun c => '0' ≤ c && c ≤ '7') rest
  | '0' :: 'b' :: rest => based 2 (fun c => c == '0' || c == '1') rest
  | text =>
    let (negative, body) := signOf text
    match wholeDigits body with
    | none => none
    | some (digits, rest) => (integerOf negative (Digit.number 10 digits)).map fun value => (value, rest)
where
  based (base : Nat) (p : Char → Bool) (text : Text) : Option (Toml × Text) :=
    match digitGroups p text with
    | none => none
    | some (digits, rest) => (integerOf false (Digit.number base digits)).map fun value => (value, rest)

/-- The exponent of a floating-point number. -/
def exponentPart : Reader Int
  | e :: rest =>
    if e == 'e' || e == 'E' then
      let (negative, body) := signOf rest
      (digitGroups Digit.isDecimal body).map fun (digits, rest) =>
        let value : Int := Digit.number 10 digits
        (if negative then -value else value, rest)
    else none
  | [] => none

/-- A floating-point number, unless it is too great. The exponent is bounded,
    for beyond the bound the number is zero or too great anyway. -/
def floatOf (negative : Bool) (digits : Nat) (exponent : Int) : Option Toml :=
  let exponent := max (-100000) (min 100000 exponent)
  (Decimal.toBinary? ⟨digits, exponent⟩).map fun binary =>
    .float ((if negative then "-" else "") ++ binary.shortest.positional)

/-- A floating-point number. -/
def float? (text : Text) : Option (Toml × Text) :=
  let (negative, body) := signOf text
  match body with
  | 'i' :: 'n' :: 'f' :: rest => some (.float (if negative then "-inf" else "inf"), rest)
  | 'n' :: 'a' :: 'n' :: rest => some (.float "NaN", rest)
  | _ =>
    match wholeDigits body with
    | none => none
    | some (whole, rest) =>
      let fraction :=
        match rest with
        | '.' :: more => digitGroups Digit.isDecimal more
        | _ => none
      match fraction with
      | some (places, rest) =>
        let digits := Digit.number 10 (whole ++ places)
        let shift : Int := places.length
        let (exponent, rest) := (exponentPart rest).getD (0, rest)
        (floatOf negative digits (exponent - shift)).map fun value => (value, rest)
      | none =>
        match exponentPart rest with
        | none => none
        | some (exponent, rest) =>
          (floatOf negative (Digit.number 10 whole) exponent).map fun value => (value, rest)

/-- A number of exactly `n` digits between two bounds. -/
def fixedDigits (n low high : Nat) (text : Text) : Option (Nat × Text) :=
  let digits := text.take n
  let value := Digit.number 10 digits
  if digits.length = n && digits.all Digit.isDecimal && low ≤ value && value ≤ high then
    some (value, text.drop n)
  else none

/-- What follows `c`. -/
def expect (c : Char) : Text → Option Text
  | d :: rest => if d = c then some rest else none
  | [] => none

/-- The number of days of a month. -/
def daysInMonth (year month : Nat) : Nat :=
  if month = 2 then
    if year % 4 = 0 && (year % 100 != 0 || year % 400 = 0) then 29 else 28
  else if [4, 6, 9, 11].contains month then 30
  else 31

/-- What follows a date. -/
def date? (text : Text) : Option Text := do
  let (year, rest) ← fixedDigits 4 0 9999 text
  let rest ← expect '-' rest
  let (month, rest) ← fixedDigits 2 1 12 rest
  let rest ← expect '-' rest
  let (_, rest) ← fixedDigits 2 1 (daysInMonth year month) rest
  some rest

/-- What follows a time of day. -/
def time? (text : Text) : Option Text := do
  let (_, rest) ← fixedDigits 2 0 23 text
  let rest ← expect ':' rest
  let (_, rest) ← fixedDigits 2 0 59 rest
  let rest ← expect ':' rest
  let (_, rest) ← fixedDigits 2 0 60 rest
  match rest with
  | '.' :: c :: more =>
    if Digit.isDecimal c then some (more.dropWhile Digit.isDecimal) else some rest
  | _ => some rest

/-- What follows the distance from universal time. -/
def zone? : Text → Option Text
  | 'Z' :: rest => some rest
  | 'z' :: rest => some rest
  | sign :: rest =>
    if sign == '+' || sign == '-' then do
      let (_, rest) ← fixedDigits 2 0 23 rest
      let rest ← expect ':' rest
      let (_, rest) ← fixedDigits 2 0 59 rest
      some rest
    else none
  | [] => none

/-- A date, a time, or both. -/
def datetime? (text : Text) : Option (Toml × Text) :=
  match date? text with
  | none => (time? text).map fun rest => (.datetime, rest)
  | some rest =>
    let later :=
      match rest with
      | mark :: more => if mark == 'T' || mark == 't' || mark == ' ' then time? more else none
      | [] => none
    match later with
    | none => some (.datetime, rest)
    | some rest => some (.datetime, (zone? rest).getD rest)

/-! ### Keys and values -/

/-- Whether a key may hold the character without quotes. -/
def isBareKeyChar (c : Char) : Bool :=
  ('a' ≤ c && c ≤ 'z') || ('A' ≤ c && c ≤ 'Z') || Digit.isDecimal c || c == '_' || c == '-'

/-- One part of a key. -/
def simpleKey (text : Text) : Option (String × Text) :=
  match text with
  | [] => none
  | c :: _ =>
    if c == '"' || c == '\x27' then (lineString text).map fun (key, rest) => (String.ofList key, rest)
    else
      match text.takeWhile isBareKeyChar with
      | [] => none
      | part => some (String.ofList part, text.dropWhile isBareKeyChar)

/-- The parts of a key of at most `fuel` parts. -/
def key : Nat → Reader (List String)
  | 0, _ => none
  | fuel + 1, text =>
    match simpleKey (skipPadding text) with
    | none => none
    | some (part, rest) =>
      match skipPadding rest with
      | '.' :: more => (key fuel more).map fun (parts, rest) => (part :: parts, rest)
      | rest => some ([part], rest)

/-- The last part of a key and those before it. -/
def splitKey? (parts : List String) : Option (List String × String) :=
  parts.getLast?.map fun last => (parts.dropLast, last)

/-- A key and its value, which `value` reads. -/
def entry (value : Reader Toml) (text : Text) : Option ((List String × Toml) × Text) := do
  let (parts, rest) ← key (text.length + 1) text
  let rest ← expect '=' rest
  let (found, rest) ← value (skipPadding rest)
  some ((parts, found), rest)

/-- The items of an array behind its bracket, at most `fuel` of them. -/
def arrayRest (value : Reader Toml) : Nat → Reader (List Toml)
  | 0, _ => none
  | fuel + 1, text =>
    match skipLines text.length text with
    | ']' :: rest => some ([], rest)
    | rest =>
      match value rest with
      | none => none
      | some (item, rest) =>
        match skipLines rest.length rest with
        | ',' :: rest => (arrayRest value fuel rest).map fun (items, rest) => (item :: items, rest)
        | ']' :: rest => some ([item], rest)
        | _ => none

/-- The entries of a table in braces, at most `fuel` of them. -/
def bracesRest (value : Reader Toml) : Nat → Entries → Reader Entries
  | 0, _, _ => none
  | fuel + 1, entries, text =>
    match entry value text with
    | none => none
    | some ((parts, found), rest) =>
      match splitKey? parts with
      | none => none
      | some (path, last) =>
        match extend? path last found entries with
        | none => none
        | some entries =>
          match skipPadding rest with
          | ',' :: rest => bracesRest value fuel entries rest
          | '\x7d' :: rest => some (entries, rest)
          | _ => none

/-- A value in which arrays and tables in braces nest less than `depth`
    deep. -/
def readValue : Nat → Reader Toml
  | 0, _ => none
  | depth + 1, text =>
    match text with
    | '[' :: rest =>
      (arrayRest (readValue depth) (rest.length + 1) rest).map fun (items, rest) =>
        (.array items, rest)
    | '\x7b' :: rest =>
      match skipPadding rest with
      | '\x7d' :: rest => some (.table .inBraces [], rest)
      | rest =>
        (bracesRest (readValue depth) (rest.length + 1) [] rest).map fun (entries, rest) =>
          (.table .inBraces entries, rest)
    | 't' :: 'r' :: 'u' :: 'e' :: rest => some (.boolean true, rest)
    | 'f' :: 'a' :: 'l' :: 's' :: 'e' :: rest => some (.boolean false, rest)
    | c :: _ =>
      if c == '"' || c == '\x27' then
        (anyString text).map fun (found, rest) => (.string (String.ofList found), rest)
      else ((datetime? text).or (float? text)).or (integer? text)
    | [] => none

/-- How deep values may nest. -/
def depthLimit : Nat := 80

/-! ### Files -/

/-- The entries read so far, and the path of the table that the last header
    opened. -/
structure Progress where
  entries : Entries := []
  path : List String := []

/-- The rest of a header with `close` at its end. -/
def headerRest (close : Text) (text : Text) : Option (List String × Text) := do
  let (parts, rest) ← key (text.length + 1) text
  if close.isPrefixOf rest then some (parts, rest.drop close.length) else none

/-- One line of a file that is not blank. -/
def readLine (progress : Progress) (text : Text) : Option (Progress × Text) :=
  match text with
  | '[' :: '[' :: rest => do
    let (parts, rest) ← headerRest [']', ']'] rest
    let (path, last) ← splitKey? parts
    let entries ← appendTable? path last progress.entries
    some (⟨entries, parts⟩, rest)
  | '[' :: rest => do
    let (parts, rest) ← headerRest [']'] rest
    let (path, last) ← splitKey? parts
    let entries ← openTable? path last progress.entries
    some (⟨entries, parts⟩, rest)
  | _ => do
    let ((parts, value), rest) ← entry (readValue depthLimit) text
    let (path, last) ← splitKey? parts
    let entries ← changeAt? progress.path (extend? path last value) progress.entries
    some (⟨entries, progress.path⟩, rest)

/-- The rest of a file of at most `fuel` lines. -/
def readLines : Nat → Progress → Text → Option Entries
  | 0, _, _ => none
  | fuel + 1, progress, text =>
    match skipLines text.length text with
    | [] => some progress.entries
    | start :: rest =>
      match readLine progress (start :: rest) with
      | none => none
      | some (progress, rest) =>
        match skipComment rest with
        | [] => some progress.entries
        | rest =>
          match lineEnd? rest with
          | some next => readLines fuel progress next
          | none => none

/-- The entries of a file. A byte order mark at its start is left out. -/
def parse? (text : Text) : Option Entries :=
  let body := match text with
    | '\ufeff' :: rest => rest
    | text => text
  readLines (body.length + 1) {} body

end Toml

end SharpLint

/-!
# Values of a Configuration File

A table remembers how it came to be, for that decides whether it may still be
extended: a table with a header of its own may be written once, one that was
only named on the way to another may get its header later, and one that a
dotted key made may be extended by dotted keys alone.

## Main definitions

* `Toml`: the values.
* `Toml.Origin`: how a table came to be.
* `Toml.extend?`: a table after an entry is put in at a path.
-/

namespace SharpLint

/-- How a table came to be. -/
inductive Toml.Origin
  /-- By a header of its own. -/
  | header
  /-- On the way to the header of another table. -/
  | implied
  /-- By a dotted key. -/
  | dotted
  /-- In braces; it is never extended. -/
  | inBraces
  deriving DecidableEq, Repr

/-- A value of a configuration file. -/
inductive Toml
  | string (text : String)
  | integer (value : Int)
  /-- A floating-point number, as it is shown. -/
  | float (shown : String)
  | boolean (value : Bool)
  | datetime
  | array (items : List Toml)
  | table (origin : Toml.Origin) (entries : List (String × Toml))
  /-- Tables that are written one by one under equal headers. -/
  | tables (items : List (List (String × Toml)))
  deriving Repr, Inhabited

namespace Toml

/-- Two to the power of 63: integers lie between its negative and the number
    below it. -/
def integerLimit : Nat := 0x8000000000000000

/-- The entries of a table, in the order in which they were written. -/
abbrev Entries := List (String × Toml)

/-- Puts a value in the place of the one under `key`, or at the end. -/
def put (key : String) (value : Toml) : Entries → Entries
  | [] => [(key, value)]
  | (k, v) :: entries => if k = key then (k, value) :: entries else (k, v) :: put key value entries

/-- The entries without the one under `key`. -/
def drop (key : String) (entries : Entries) : Entries :=
  entries.filter fun entry => entry.1 != key

/-- Changes the table at the end of `path` by `change`, which is told how the
    table came to be. Tables that are missing on the way are made, `dotted` or
    implied; of tables under equal headers the last one is meant. -/
def descend? (dotted : Bool) (change : Origin → Entries → Option Entries) :
    List String → Origin → Entries → Option Entries
  | [], origin, entries => change origin entries
  | key :: path, _, entries =>
    match entries.lookup key with
    | none =>
      let origin := if dotted then Origin.dotted else .implied
      (descend? dotted change path origin []).map fun made => put key (.table origin made) entries
    | some (.table origin inner) =>
      if origin = .inBraces || (dotted && origin = .header) then none
      else
        (descend? dotted change path origin inner).map fun changed =>
          put key (.table origin changed) entries
    | some (.tables items) =>
      match items.getLast? with
      | none => none
      | some last =>
        (descend? dotted change path .header last).map fun changed =>
          put key (.tables (items.dropLast ++ [changed])) entries
    | some _ => none

/-- The entries with a value under a dotted key. A key without dots may not
    extend a table made by dots, nor the other way round. -/
def extend? (path : List String) (key : String) (value : Toml) (entries : Entries) :
    Option Entries :=
  descend? true
    (fun origin inner =>
      if (origin == .dotted) == path.isEmpty then none
      else
        match inner.lookup key with
        | some _ => none
        | none => some (inner ++ [(key, value)]))
    path .header entries

/-- The entries with the table that a header opens. -/
def openTable? (path : List String) (key : String) (entries : Entries) : Option Entries :=
  descend? false
    (fun _ inner =>
      match inner.lookup key with
      | none => some (inner ++ [(key, .table .header [])])
      | some (.table .implied entries) => some (drop key inner ++ [(key, .table .header entries)])
      | some _ => none)
    path .header entries

/-- The entries with one more table under a doubled header. -/
def appendTable? (path : List String) (key : String) (entries : Entries) : Option Entries :=
  descend? false
    (fun _ inner =>
      match inner.lookup key with
      | none => some (inner ++ [(key, .tables [[]])])
      | some (.tables items) => some (put key (.tables (items ++ [[]])) inner)
      | some _ => none)
    path .header entries

/-- The entries after a change of the table that the last header opened. -/
def changeAt? (path : List String) (change : Entries → Option Entries) (entries : Entries) :
    Option Entries :=
  descend? false (fun _ inner => change inner) path .header entries

end Toml

end SharpLint

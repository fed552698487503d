import SharpLint.Config.Basic
import SharpLint.Toml.Reader
import SharpLint.Toml.Writer

/-!
# Configurations as Values

A configuration is written as a table of sections. What is missing has its
default and what is unknown is passed over; a section may also be a list of
its values in order. The first value that does not fit spoils the whole.

## Main definitions

* `ConfigFault`: why a text is no configuration.
* `Config.ofValue`: the configuration that a value writes.
* `Config.parse`: the configuration that a text writes.
* `Config.write?`: the text of a configuration.
-/

namespace SharpLint

/-- Why a text is no configuration. -/
inductive ConfigFault
  /-- The text does not follow the format. -/
  | unreadable
  /-- A value is of another kind than is wanted. -/
  | wrongType (found wanted : String)
  /-- A value is of the right kind but out of range. -/
  | wrongValue (found wanted : String)
  /-- A list has more values than its section. -/
  | surplus
  deriving DecidableEq, Repr

/-- The fault in words, where it has words. -/
def ConfigFault.message? : ConfigFault → Option String
  | .unreadable | .surplus => none
  | .wrongType found wanted => some ("invalid type: " ++ found ++ ", expected " ++ wanted)
  | .wrongValue found wanted => some ("invalid value: " ++ found ++ ", expected " ++ wanted)

namespace Toml

/-- A character as it is shown in a message. -/
def shownChar (c : Char) : Text :=
  if c == '"' then ['\\', '"']
  else if c == '\\' then ['\\', '\\']
  else if c == '\n' then ['\\', 'n']
  else if c == '\r' then ['\\', 'r']
  else if c == '\t' then ['\\', 't']
  else if c == '\x00' then ['\\', '0']
  else if isControl c then
    let digits := if c.toNat < 16 then [Digit.lower c.toNat]
      else [Digit.lower (c.toNat / 16), Digit.lower (c.toNat % 16)]
    ['\\', 'u', '{'] ++ digits ++ ['}']
  else [c]

/-- The value as it is shown in a message. -/
def shown : Toml → String
  | .string text => "string \"" ++ String.ofList (text.toList.flatMap shownChar) ++ "\""
  | .integer value => "integer " ++ quoted (toString value)
  | .float text => "floating point " ++ quoted text
  | .boolean value => "boolean " ++ quoted (toString value)
  | .array _ | .tables _ => "sequence"
  | .datetime | .table .. => "map"
where
  quoted (text : String) : String := "\x60" ++ text ++ "\x60"

end Toml

namespace Config

/-- A value that a configuration is decoded to, or why there is none. -/
abbrev Decoded (α : Type) := Except ConfigFault α

/-- A flag. -/
def flag : Toml → Decoded Bool
  | .boolean value => .ok value
  | other => .error (.wrongType other.shown "a boolean")

/-- A number that fits 64 bits without a sign. -/
def number : Toml → Decoded Nat
  | .integer value =>
    if value < 0 then .error (.wrongValue (Toml.shown (.integer value)) "usize")
    else if value < 2 * Toml.integerLimit then .ok value.toNat
    else .error (.wrongType (Toml.shown (.integer value)) "usize")
  | other => .error (.wrongType other.shown "usize")

/-- A list of patterns. -/
def patterns : Toml → Decoded (List String)
  | .array items => items.mapM pattern
  | .tables items => items.mapM fun entries => pattern (.table .header entries)
  | other => .error (.wrongType other.shown "a sequence")
where
  pattern : Toml → Decoded String
    | .string text => .ok text
    | other => .error (.wrongType other.shown "a string")

/-- How one value of a section is set. -/
abbrev Setter (α : Type) := String × (α → Toml → Decoded α)

/-- A section with its values set from a table, in the order of the table. -/
def setEntries {α : Type} (setters : List (Setter α)) (section_ : α) (entries : Toml.Entries) :
    Decoded α :=
  entries.foldlM (fun section_ entry =>
    match setters.lookup entry.1 with
    | some set => set section_ entry.2
    | none => .ok section_) section_

/-- A section with its values set from a list. More values than the section
    has are a fault unless `surplus` allows them. -/
def setItems {α : Type} (surplus : Bool) (setters : List (Setter α)) (section_ : α)
    (items : List Toml) : Decoded α := do
  let set ← (items.zip setters).foldlM (fun section_ pair => pair.2.2 section_ pair.1) section_
  if items.length ≤ setters.length || surplus then .ok set else .error .surplus

/-- A section called `name` in messages. -/
def decodeSection {α : Type} (surplus : Bool) (name : String) (setters : List (Setter α))
    (default : α) : Toml → Decoded α
  | .table _ entries => setEntries setters default entries
  | .array items => setItems surplus setters default items
  | .tables items => setItems surplus setters default (items.map (.table .header))
  | .datetime => .ok default
  | other => .error (.wrongType other.shown ("struct " ++ name))

/-- How the values of the choice of rules are set. -/
def ruleSetters : List (Setter RuleChoice) :=
  [("check_constructor_length", fun rules value =>
      return { rules with checkConstructorLength := ← flag value }),
    ("check_unread_fields", fun rules value =>
      return { rules with checkUnreadFields := ← flag value })]

/-- How the values of the style are set. -/
def styleSetters : List (Setter StyleChoice) :=
  [("max_line_length", fun style value => return { style with maxLineLength := ← number value }),
    ("indent_size", fun style value => return { style with indentSize := ← number value })]

/-- How the values about fixes are set. -/
def fixSetters : List (Setter FixChoice) :=
  [("enabled", fun fixes value => return { fixes with enabled := ← flag value }),
    ("max_passes", fun fixes value => return { fixes with maxPasses := ← number value })]

/-- How the values about reading are set. -/
def readSetters : List (Setter ReadChoice) :=
  [("parallel_analysis", fun reading value =>
      return { reading with parallelAnalysis := ← flag value }),
    ("memory_mapped_io", fun reading value => return { reading with memoryMapped := ← flag value })]

/-- How the sections of a configuration are set. In a list a section may have more
    values than it needs if `surplus` allows that. -/
def setters (surplus : Bool) : List (Setter Config) :=
  [("ignore", fun config value => return { config with ignore := ← patterns value }),
    ("rules", fun config value =>
      return { config with rules := ← decodeSection surplus "RuleConfig" ruleSetters {} value }),
    ("style", fun config value =>
      return { config with style := ← decodeSection surplus "StyleConfig" styleSetters {} value }),
    ("autofix", fun config value =>
      return { config with autofix := ← decodeSection surplus "AutofixConfig" fixSetters {} value }),
    ("performance", fun config value =>
      return { config with
        performance := ← decodeSection surplus "PerformanceConfig" readSetters {} value })]

/-- The configuration that a value writes. -/
def ofValue (surplus : Bool) (value : Toml) : Decoded Config :=
  decodeSection surplus "Config" (setters surplus) {} value

/-- The configuration that a text writes. -/
def parse (text : Text) : Decoded Config :=
  match Toml.parse? text with
  | none => .error .unreadable
  | some entries => ofValue true (.table .header entries)

/-- One line that gives a value a name. -/
def line (name : String) (value : Text) : Text :=
  name.toList ++ " = ".toList ++ value ++ ['\n']

/-- The header of a section, below an empty line. -/
def header (name : String) : Text :=
  '\n' :: '[' :: name.toList ++ [']', '\n']

/-- A flag as it is written. -/
def flagText (value : Bool) : Text := (toString value).toList

/-- A number as it is written. -/
def numberText (value : Nat) : Text := (toString value).toList

/-- The numbers of a configuration. -/
def numbers (config : Config) : List Nat :=
  [config.style.maxLineLength, config.style.indentSize, config.autofix.maxPasses]

/-- The text of a configuration, unless a number does not fit 64 bits with a
    sign, for the format has no greater ones. -/
def write? (config : Config) : Option Text :=
  if config.numbers.all (· < Toml.integerLimit) then
    some <|
      line "ignore" (Toml.writeList (config.ignore.map String.toList))
      ++ header "rules"
      ++ line "check_constructor_length" (flagText config.rules.checkConstructorLength)
      ++ line "check_unread_fields" (flagText config.rules.checkUnreadFields)
      ++ header "style"
      ++ line "max_line_length" (numberText config.style.maxLineLength)
      ++ line "indent_size" (numberText config.style.indentSize)
      ++ header "autofix"
      ++ line "enabled" (flagText config.autofix.enabled)
      ++ line "max_passes" (numberText config.autofix.maxPasses)
      ++ header "performance"
      ++ line "parallel_analysis" (flagText config.performance.parallelAnalysis)
      ++ line "memory_mapped_io" (flagText config.performance.memoryMapped)
  else none

end Config

end SharpLint

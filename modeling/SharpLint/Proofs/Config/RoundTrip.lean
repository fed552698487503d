import SharpLint.Config.Store
import SharpLint.Proofs.Files.Disk
import SharpLint.Proofs.Files.Utf8
import SharpLint.Proofs.Toml.Lines

/-!
# Configurations Written and Loaded

A configuration that is written to its file is loaded as it was, whatever
patterns it holds. It is written whenever its numbers fit.

The text is an entry for the patterns and four sections. It is read as a table
with the entries in this order, and each entry sets what it was written for, so
nothing is left of the defaults that the decoding starts from.

## Main definitions

* `Config.sections`: the sections that a configuration is written in.
* `Config.entries`: the table that a configuration is read as.

## Theorems

* `Config.parse?_of_write?`: The text of a configuration is read as its table.
* `Config.ofValue_entries`: The table sets all of the configuration.
* `Disk.find_of_write`: What is at a path after a text is written there.
* `written_config_loads`: A configuration survives its file.
-/

namespace SharpLint

namespace Config

open Toml

/-! ### The table of a configuration -/

/-- A flag under a key. -/
def flagSetting (key : String) (bare : IsBareKey key) (value : Bool) : Setting :=
  ⟨key, flagText value, .boolean value, bare, written_flag value⟩

/-- A number under a key. -/
def numberSetting (key : String) (bare : IsBareKey key) {n : Nat} (fits : n < integerLimit) : Setting :=
  ⟨key, numberText n, .integer n, bare, written_number fits⟩

/-- All numbers fit 64 bits with a sign. -/
structure Fits (config : Config) : Prop where
  maxLineLength : config.style.maxLineLength < 2 ^ 63
  indentSize : config.style.indentSize < 2 ^ 63
  maxPasses : config.autofix.maxPasses < 2 ^ 63

/-- The sections that a configuration is written in. -/
def sections (config : Config) (fits : config.Fits) : List SettingGroup :=
  [{ name := "rules"
     settings := [flagSetting "check_constructor_length" (by decide) config.rules.checkConstructorLength,
       flagSetting "check_unread_fields" (by decide) config.rules.checkUnreadFields]
     bare := by decide
     distinct := show ["check_constructor_length", "check_unread_fields"].Nodup by decide },
   { name := "style"
     settings := [numberSetting "max_line_length" (by decide) fits.maxLineLength,
       numberSetting "indent_size" (by decide) fits.indentSize]
     bare := by decide
     distinct := show ["max_line_length", "indent_size"].Nodup by decide },
   { name := "autofix"
     settings := [flagSetting "enabled" (by decide) config.autofix.enabled,
       numberSetting "max_passes" (by decide) fits.maxPasses]
     bare := by decide
     distinct := show ["enabled", "max_passes"].Nodup by decide },
   { name := "performance"
     settings := [flagSetting "parallel_analysis" (by decide) config.performance.parallelAnalysis,
       flagSetting "memory_mapped_io" (by decide) config.performance.memoryMapped]
     bare := by decide
     distinct := show ["parallel_analysis", "memory_mapped_io"].Nodup by decide }]

/-- The patterns as a value. -/
def ignoreValue (config : Config) : Toml :=
  .array ((config.ignore.map String.toList).map fun text => .string (String.ofList text))

/-- The table that a configuration is read as. -/
def entries (config : Config) : Entries :=
  [("ignore", config.ignoreValue),
    ("rules", .table .header
      [("check_constructor_length", .boolean config.rules.checkConstructorLength),
        ("check_unread_fields", .boolean config.rules.checkUnreadFields)]),
    ("style", .table .header
      [("max_line_length", .integer config.style.maxLineLength),
        ("indent_size", .integer config.style.indentSize)]),
    ("autofix", .table .header
      [("enabled", .boolean config.autofix.enabled),
        ("max_passes", .integer config.autofix.maxPasses)]),
    ("performance", .table .header
      [("parallel_analysis", .boolean config.performance.parallelAnalysis),
        ("memory_mapped_io", .boolean config.performance.memoryMapped)])]

/-- A configuration is written exactly if its numbers fit. -/
theorem write?_eq_some_iff {config : Config} {text : Text} :
    config.write? = some text ↔ ∃ fits : config.Fits,
      text = line "ignore" (writeList (config.ignore.map String.toList))
        ++ (config.sections fits).flatMap SettingGroup.lines := by
  rw [write?]
  simp only [numbers, List.all_cons, List.all_nil, Bool.and_eq_true, decide_eq_true_eq]
  split
  · next hfits =>
      obtain ⟨hmax, hindent, hpasses, -⟩ := hfits
      rw [Option.some.injEq, eq_comm]
      simp only [sections, List.flatMap_cons, List.flatMap_nil, SettingGroup.lines, List.append_assoc,
        List.append_nil]
      exact ⟨fun h => ⟨⟨hmax, hindent, hpasses⟩, h⟩, fun h => h.2⟩
  · next hfits =>
      refine ⟨fun h => absurd h (by simp only [reduceCtorEq, not_false_eq_true]), ?_⟩
      -- If a number does not fit, nothing is written.
      rintro ⟨fits, -⟩
      exact absurd ⟨fits.maxLineLength, fits.indentSize, fits.maxPasses, trivial⟩ hfits

/-- A text that begins with a key has no byte order mark. -/
theorem parse?_line {key : String} {written rest : Text} (hkey : IsBareKey key) {result : Entries}
    (h : ReadsFile {} (line key written ++ rest) result) :
    Toml.parse? (line key written ++ rest) = some result := by
  obtain ⟨first, more, hname, hfirst⟩ := hkey.exists_cons
  have hread := h _ (Nat.lt_succ_self _)
  rw [line, hname] at hread ⊢
  rw [Toml.parse?]
  · exact hread
  · exact fun _ heq => ne_of_passes hfirst (by decide) (List.cons.inj heq).1

/-- The text of a configuration is read as its table. -/
theorem parse?_of_write? {config : Config} {text : Text} (h : config.write? = some text) :
    Toml.parse? text = some config.entries := by
  obtain ⟨fits, rfl⟩ := write?_eq_some_iff.1 h
  have hnames : ["ignore", "rules", "style", "autofix", "performance"].Nodup := by decide
  exact parse?_line (by decide) (.line (by decide) (written_list _) rfl (.groups hnames))

/-! ### What the table sets -/

/-- A known entry is set, and the rest of the table after it. -/
theorem setEntries_cons {α : Type} {setters : List (Setter α)} {section_ next : α} {key : String}
    {value : Toml} {set : α → Toml → Decoded α} (hknown : setters.lookup key = some set)
    (hset : set section_ value = .ok next) (entries : Entries) :
    setEntries setters section_ ((key, value) :: entries) = setEntries setters next entries := by
  rw [setEntries, List.foldlM_cons, hknown]
  simp only [hset]
  rfl

theorem number_ofNat {n : Nat} (hn : n < 2 ^ 63) : number (.integer n) = .ok n := by
  have hnonneg : ¬(n : Int) < 0 := by omega
  have hfits : (n : Int) < 2 * Toml.integerLimit := by
    rw [Toml.integerLimit]
    omega
  rw [number, if_neg hnonneg, if_pos hfits, Int.toNat_natCast]

theorem patterns_ignoreValue (config : Config) :
    patterns config.ignoreValue = .ok config.ignore := by
  rw [ignoreValue, patterns, List.map_map]
  induction config.ignore with
  | nil => rfl
  | cons pattern ignore ih =>
      have hpattern : patterns.pattern (.string (String.ofList pattern.toList)) = .ok pattern := by
        rw [String.ofList_toList, patterns.pattern]
      rw [List.map_cons, List.mapM_cons, ih]
      simp only [Function.comp_apply, hpattern]
      rfl

/-- The table sets all of the configuration. -/
theorem ofValue_entries (config : Config) (fits : config.Fits) (surplus : Bool) :
    ofValue surplus (.table .header config.entries) = .ok config := by
  have hmax := number_ofNat fits.maxLineLength
  have hindent := number_ofNat fits.indentSize
  have hpasses := number_ofNat fits.maxPasses
  -- Each section is read from its own table, starting with the defaults.
  have hrules : decodeSection surplus "RuleConfig" ruleSetters {} (.table .header
      [("check_constructor_length", .boolean config.rules.checkConstructorLength),
        ("check_unread_fields", .boolean config.rules.checkUnreadFields)]) = .ok config.rules := by
    rfl
  have hstyle : decodeSection surplus "StyleConfig" styleSetters {} (.table .header
      [("max_line_length", .integer config.style.maxLineLength),
        ("indent_size", .integer config.style.indentSize)]) = .ok config.style := by
    rw [decodeSection, setEntries_cons rfl (by simp only [hmax]; rfl),
      setEntries_cons rfl (by simp only [hindent]; rfl)]
    rfl
  have hautofix : decodeSection surplus "AutofixConfig" fixSetters {} (.table .header
      [("enabled", .boolean config.autofix.enabled),
        ("max_passes", .integer config.autofix.maxPasses)]) = .ok config.autofix := by
    rw [decodeSection, setEntries_cons rfl rfl, setEntries_cons rfl (by simp only [hpasses]; rfl)]
    rfl
  have hperformance : decodeSection surplus "PerformanceConfig" readSetters {} (.table .header
      [("parallel_analysis", .boolean config.performance.parallelAnalysis),
        ("memory_mapped_io", .boolean config.performance.memoryMapped)])
        = .ok config.performance := by
    rfl
  rw [ofValue, decodeSection, entries]
  -- The sections are set one after the other, none of them twice.
  rw [setEntries_cons rfl (by simp only [patterns_ignoreValue]; rfl),
    setEntries_cons rfl (by simp only [hrules]; rfl),
    setEntries_cons rfl (by simp only [hstyle]; rfl),
    setEntries_cons rfl (by simp only [hautofix]; rfl),
    setEntries_cons rfl (by simp only [hperformance]; rfl)]
  rfl

end Config

/-! ### The file -/

/-- What is at a path after a text is written there. -/
theorem Disk.find_of_write {disk after : Disk} {path : FilePath} {text : Text}
    (h : disk.write path text = .ok after) :
    after.here = disk.here ∧ after.find path = .file (Utf8.encode text) := by
  have hput (disk : Disk) : (disk.put path (Utf8.encode text)).here = disk.here
      ∧ (disk.put path (Utf8.encode text)).find path = .file (Utf8.encode text) := by
    refine ⟨rfl, ?_⟩
    rw [find, lookup_put, if_pos rfl]
  rw [write] at h
  split at h
  · exact absurd h (by simp only [reduceCtorEq, not_false_eq_true])
  · exact Except.ok.inj h ▸ hput disk
  · split at h
    · exact Except.ok.inj h ▸ hput disk
    · exact absurd h (by simp only [reduceCtorEq, not_false_eq_true])

/-- A configuration is written exactly if its numbers fit 64 bits with a sign,
    and if its text is written to the file of a folder, it is loaded from there
    as it was. -/
theorem written_config_loads (config : Config) :
    ((∃ text, config.write? = some text) ↔ config.Fits)
      ∧ ∀ text, config.write? = some text → ∀ (disk after : Disk) (folder : String),
        disk.write (disk.locate (Config.fileIn folder)) text = .ok after →
        Config.load after folder = .ok config := by
  refine ⟨?_, fun text hwrite disk after folder hafter => ?_⟩
  · simp only [Config.write?_eq_some_iff]
    exact ⟨fun ⟨_, fits, _⟩ => fits, fun fits => ⟨_, fits, rfl⟩⟩
  · obtain ⟨hhere, hfind⟩ := Disk.find_of_write hafter
    -- Writing leaves the working directory as it is, so the path is the same.
    have hlocate : after.locate (Config.fileIn folder) = disk.locate (Config.fileIn folder) := by
      rw [Disk.locate, Disk.locate, hhere]
    have hread : after.read (disk.locate (Config.fileIn folder)) = .ok text := by
      rw [Disk.read, Disk.bytes, hfind]
      simp only [Utf8.decode_encode]
    obtain ⟨fits, -⟩ := Config.write?_eq_some_iff.1 hwrite
    have hparse : Config.parse text = .ok config := by
      rw [Config.parse, Config.parse?_of_write? hwrite]
      exact Config.ofValue_entries config fits true
    rw [Config.load, hlocate, Disk.isThere, hfind, hread]
    simp only [hparse, if_true]

/-- Patterns that are written in every way, and the greatest number that fits. -/
def guardedConfig : Config where
  ignore := ["it's", "a\"b", "'a\\b", "\\\na", "''\n\t'", "\x01\x7f", ""]
  rules := { checkUnreadFields := false }
  style := { maxLineLength := 2 ^ 63 - 1, indentSize := 0 }
  autofix := { enabled := false, maxPasses := 7 }
  performance := { parallelAnalysis := false }

theorem written_config_loads_guarded :
    ∃ text after, guardedConfig.write? = some text
      ∧ ({} : Disk).write (({} : Disk).locate (Config.fileIn ".")) text = .ok after
      ∧ Config.load after "." = .ok guardedConfig := by
  have hfits : guardedConfig.Fits := ⟨by decide, by decide, by decide⟩
  obtain ⟨text, htext⟩ := (written_config_loads guardedConfig).1.2 hfits
  have hlocate : ({} : Disk).locate (Config.fileIn ".") = [".dslint.toml"] := by decide +kernel
  have hwrite : ({} : Disk).write (({} : Disk).locate (Config.fileIn ".")) text
      = .ok (({} : Disk).put [".dslint.toml"] (Utf8.encode text)) := by
    rw [hlocate]
    rfl
  exact ⟨text, _, htext, hwrite, (written_config_loads guardedConfig).2 text htext _ _ _ hwrite⟩

end SharpLint

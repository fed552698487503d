import SharpLint.Config.Codec
import SharpLint.Proofs.Toml.Values

/-!
# Files Written and Read

A file is written line by line: headers of sections, and entries under keys that
need no quotes. It is read line by line, too, so a file is read as it was
written if every line does to the entries read so far what it should: a header
opens a new table, and an entry goes into the table that was opened last.

The reader takes a number of lines that it may read. Every line has a character
at least, so a text may always have as many lines as characters, and no count
of lines is needed.

## Main definitions

* `Toml.ReadsFile`: what the rest of a file is read as.
* `Toml.IsBareKey`: a key that needs no quotes.
* `Toml.Setting`: a key and a value as they are written.
* `Toml.SettingGroup`: a header and the settings below it.

## Theorems

* `Toml.key_bare`: A key without quotes is read as it is.
* `Toml.ReadsFile.line`, `Toml.ReadsFile.header`: What a line does.
* `Toml.ReadsFile.settings`: What the lines below a header do.
* `Toml.ReadsFile.groups`: What the groups at the end of a file do.
-/

namespace SharpLint

namespace Toml

variable {c : Char} {text rest : Text} {entries result : Entries} {path : List String} {name : String}

/-! ### Keys -/

/-- The key has characters, and none that needs quotes. -/
def IsBareKey (name : String) : Prop :=
  name.toList ≠ [] ∧ name.toList.all isBareKeyChar = true

instance (name : String) : Decidable (IsBareKey name) :=
  inferInstanceAs (Decidable (_ ∧ _))

theorem IsBareKey.exists_cons (h : IsBareKey name) :
    ∃ c more, name.toList = c :: more ∧ isBareKeyChar c = true := by
  obtain ⟨c, more, hname⟩ := List.exists_cons_of_ne_nil h.1
  exact ⟨c, more, hname, List.all_eq_true.1 h.2 c (hname ▸ List.mem_cons_self)⟩

theorem simpleKey_bare (h : IsBareKey name) (hc : isBareKeyChar c = false) (rest : Text) :
    simpleKey (name.toList ++ c :: rest) = some (name, c :: rest) := by
  have hall := List.all_eq_true.1 h.2
  have htake : (name.toList ++ c :: rest).takeWhile isBareKeyChar = name.toList := by
    rw [List.takeWhile_append_of_pos hall, List.takeWhile_cons_of_neg (Bool.eq_false_iff.1 hc),
      List.append_nil]
  have hdrop : (name.toList ++ c :: rest).dropWhile isBareKeyChar = c :: rest := by
    rw [List.dropWhile_append_of_pos hall, List.dropWhile_cons_of_neg (Bool.eq_false_iff.1 hc)]
  obtain ⟨first, more, hname, hfirst⟩ := h.exists_cons
  have hpart : String.ofList (first :: more) = name := by rw [← hname, String.ofList_toList]
  rw [hname, List.cons_append] at htake hdrop ⊢
  rw [simpleKey, beq_false_of_ne (ne_of_passes hfirst (by decide)),
    beq_false_of_ne (ne_of_passes hfirst (by decide)), Bool.or_self,
    if_neg Bool.false_ne_true, htake]
  simp only [hpart, hdrop]

/-- A key without quotes is read as it is, if no dot follows. -/
theorem key_bare (h : IsBareKey name) (hc : isBareKeyChar c = false) {d : Char} {behind : Text}
    (hskip : skipPadding (c :: rest) = d :: behind) (hd : d ≠ '.') (fuel : Nat) :
    key (fuel + 1) (name.toList ++ c :: rest) = some ([name], d :: behind) := by
  have hread := simpleKey_bare h hc rest
  obtain ⟨first, more, hname, hfirst⟩ := h.exists_cons
  rw [hname, List.cons_append] at hread ⊢
  rw [key, skipPadding_cons (ne_of_passes hfirst (by decide))
    (ne_of_passes hfirst (by decide)), hread]
  simp only [hskip]
  split
  · next heq => exact absurd (List.cons.inj heq).1 hd
  · rfl

/-! ### Lines -/

/-- The rest of a file is read, after what was read before, as the entries. -/
def ReadsFile (progress : Progress) (text : Text) (result : Entries) : Prop :=
  ∀ fuel, text.length < fuel → readLines fuel progress text = some result

theorem ReadsFile.nil (entries : Entries) (path : List String) :
    ReadsFile ⟨entries, path⟩ [] entries := by
  intro fuel hfuel
  obtain ⟨fuel, rfl⟩ := Nat.exists_eq_succ_of_ne_zero (Nat.ne_zero_of_lt hfuel)
  rfl

/-- What a line does that begins behind blank lines and ends with a line feed. -/
theorem ReadsFile.step {progress next : Progress} {start : Char} {more : Text}
    (hskip : skipLines text.length text = start :: more)
    (hline : readLine progress (start :: more) = some (next, '\n' :: rest))
    (hlength : rest.length < text.length) (h : ReadsFile next rest result) :
    ReadsFile progress text result := by
  intro fuel hfuel
  obtain ⟨fuel, rfl⟩ := Nat.exists_eq_succ_of_ne_zero (Nat.ne_zero_of_lt hfuel)
  have hrest := h fuel (Nat.lt_of_lt_of_le hlength (Nat.le_of_lt_succ hfuel))
  have hcomment : skipComment ('\n' :: rest) = '\n' :: rest := rfl
  rw [readLines, hskip]
  simp only [hline, hcomment]
  exact hrest

/-- What an entry does: its value goes into the table that was opened last. -/
theorem ReadsFile.line {key : String} {value : Toml} {written : Text} {next : Entries}
    (hkey : IsBareKey key) (hwritten : Written value written)
    (hnext : changeAt? path (extend? [] key value) entries = some next)
    (h : ReadsFile ⟨next, path⟩ rest result) :
    ReadsFile ⟨entries, path⟩ (Config.line key written ++ rest) result := by
  have htext : Config.line key written ++ rest
      = key.toList ++ ' ' :: '=' :: ' ' :: (written ++ '\n' :: rest) := by
    rw [Config.line]
    simp only [List.append_assoc]
    rfl
  have hvalue : skipPadding (' ' :: (written ++ '\n' :: rest)) = written ++ '\n' :: rest := by
    obtain ⟨c, more, hc, hspace, htab⟩ := hwritten.head
    rw [hc, List.cons_append]
    exact skipPadding_cons hspace htab _
  -- The key ends at the blank before the equals sign, and the value begins behind one.
  have hread := key_bare hkey (show isBareKeyChar ' ' = false by decide)
    (show skipPadding (' ' :: '=' :: ' ' :: (written ++ '\n' :: rest)) = _ from rfl) (by decide)
  have hentry : entry (readValue depthLimit) (Config.line key written ++ rest)
      = some (([key], value), '\n' :: rest) := by
    rw [entry, htext, hread]
    simp only [Option.bind_eq_bind, Option.bind_some, expect, if_true, hvalue, hwritten.reads]
  obtain ⟨first, more, hname, hfirst⟩ := hkey.exists_cons
  -- A line that begins like a key is no blank line, no comment and no header.
  have hsolid : first ∉ [' ', '\t', '#', '\n', '\r'] := by
    intro hmem
    have hall : [' ', '\t', '#', '\n', '\r'].all (fun c => !isBareKeyChar c) = true := by decide
    have hnone := List.all_eq_true.1 hall first hmem
    rw [hfirst] at hnone
    exact absurd hnone Bool.false_ne_true
  rw [htext, hname, List.cons_append] at hentry ⊢
  refine .step (skipLines_cons hsolid _ _) ?_ ?_ h
  · rw [readLine, hentry]
    · simp only [Option.bind_eq_bind, Option.bind_some, splitKey?, List.getLast?_singleton,
        Option.map_some, List.dropLast_singleton, hnext]
    · exact fun _ heq => ne_of_passes hfirst (by decide) (List.cons.inj heq).1
    · exact fun _ heq => ne_of_passes hfirst (by decide) (List.cons.inj heq).1
  · -- The text got shorter, so the fuel that the whole text gave suffices.
    simp only [List.length_cons, List.length_append]
    omega

/-- What a header does: it opens a new table. -/
theorem ReadsFile.header {next : Entries} (hname : IsBareKey name)
    (hnext : openTable? [] name entries = some next) (h : ReadsFile ⟨next, [name]⟩ rest result) :
    ReadsFile ⟨entries, path⟩ (Config.header name ++ rest) result := by
  have htext : Config.header name ++ rest
      = '\n' :: '[' :: (name.toList ++ ']' :: '\n' :: rest) := by
    rw [Config.header]
    simp only [List.cons_append, List.append_assoc, List.nil_append]
  have hread := key_bare hname (show isBareKeyChar ']' = false by decide)
    (show skipPadding (']' :: '\n' :: rest) = _ from rfl) (by decide)
  have hheader : headerRest [']'] (name.toList ++ ']' :: '\n' :: rest)
      = some ([name], '\n' :: rest) := by
    rw [headerRest, hread]
    rfl
  rw [htext]
  -- The blank line before a header is skipped.
  have hskip (k : Nat) (text : Text) : skipLines (k + 1) ('\n' :: '[' :: text) = '[' :: text :=
    skipLines_cons (show '[' ∉ [' ', '\t', '#', '\n', '\r'] by decide) k text
  refine .step (hskip _ _) ?_ ?_ h
  · rw [readLine, hheader]
    · simp only [Option.bind_eq_bind, Option.bind_some, splitKey?, List.getLast?_singleton,
        Option.map_some, List.dropLast_singleton, hnext]
    · obtain ⟨first, more, hname, hfirst⟩ := hname.exists_cons
      rw [hname]
      exact fun _ heq => ne_of_passes hfirst (by decide) (List.cons.inj heq).1
  · simp only [List.length_cons, List.length_append]
    omega

/-! ### Tables -/

variable {key : String} {value : Toml} {inner : Entries}

/-- A key that comes behind other keys, all of them distinct, is new. -/
theorem lookup_of_nodup {keys : List String} (h : (entries.map Prod.fst ++ key :: keys).Nodup) :
    entries.lookup key = none := by
  refine List.lookup_eq_none_iff.2 fun entry hentry => bne_iff_ne.2 (Ne.symm ?_)
  exact (List.nodup_append.1 h).2.2 _ (List.mem_map_of_mem hentry) _ List.mem_cons_self

/-- A new key is put behind the others. -/
theorem extend?_new (h : entries.lookup key = none) (value : Toml) :
    extend? [] key value entries = some (entries ++ [(key, value)]) := by
  rw [extend?, descend?, h]
  rfl

theorem openTable?_new (h : entries.lookup name = none) :
    openTable? [] name entries = some (entries ++ [(name, .table .header [])]) := by
  rw [openTable?, descend?, h]

theorem put_last (h : entries.lookup key = none) (old value : Toml) :
    put key value (entries ++ [(key, old)]) = entries ++ [(key, value)] := by
  induction entries with
  | nil => rw [List.nil_append, put, if_pos rfl, List.nil_append]
  | cons entry entries ih =>
      obtain ⟨other, found⟩ := entry
      rw [List.lookup_cons] at h
      split at h
      · exact absurd h (by simp only [reduceCtorEq, not_false_eq_true])
      · next hne =>
          rw [List.cons_append, put, if_neg fun heq => ?_, ih h, List.cons_append]
          rw [heq, beq_self_eq_true] at hne
          exact absurd hne (by simp only [reduceCtorEq, not_false_eq_true])

/-- A change of the table that was opened last. -/
theorem changeAt?_last (h : entries.lookup name = none) {change : Entries → Option Entries}
    {changed : Entries} (hchange : change inner = some changed) :
    changeAt? [name] change (entries ++ [(name, .table .header inner)])
      = some (entries ++ [(name, .table .header changed)]) := by
  have hlookup : (entries ++ [(name, Toml.table .header inner)]).lookup name
      = some (.table .header inner) := by
    rw [List.lookup_append, h, Option.none_or, List.lookup_cons_self]
  rw [changeAt?, descend?, hlookup]
  simp only [descend?, hchange, Option.map_some, put_last h]
  rfl

/-! ### Groups of settings -/

/-- A key without quotes, and a value as it is written. -/
structure Setting where
  key : String
  text : Text
  value : Toml
  bare : IsBareKey key
  written : Written value text

/-- The setting as a line. -/
def Setting.line (setting : Setting) : Text := Config.line setting.key setting.text

/-- The setting as an entry. -/
def Setting.entry (setting : Setting) : String × Toml := (setting.key, setting.value)

/-- What the lines below a header do: the settings go into its table, in order. -/
theorem ReadsFile.settings {done : Entries} {settings : List Setting}
    (hnew : entries.lookup name = none)
    (hkeys : (done.map Prod.fst ++ settings.map Setting.key).Nodup)
    (h : ReadsFile ⟨entries ++ [(name, .table .header (done ++ settings.map Setting.entry))], [name]⟩
      rest result) :
    ReadsFile ⟨entries ++ [(name, .table .header done)], [name]⟩
      (settings.flatMap Setting.line ++ rest) result := by
  induction settings generalizing done with
  | nil => rwa [List.map_nil, List.append_nil] at h
  | cons setting settings ih =>
      -- No key is set twice, so each setting goes to the end of its table.
      have hsetting := extend?_new (lookup_of_nodup hkeys) setting.value
      rw [List.flatMap_cons, List.append_assoc]
      refine .line setting.bare setting.written (changeAt?_last hnew hsetting) (ih ?_ ?_)
      · rwa [List.map_append, List.map_cons, List.map_nil, List.append_assoc]
      · rwa [List.append_assoc]

/-- A header that needs no quotes, and the settings below it. -/
structure SettingGroup where
  name : String
  settings : List Setting
  bare : IsBareKey name
  distinct : (settings.map Setting.key).Nodup

/-- The section as lines. -/
def SettingGroup.lines (group : SettingGroup) : Text :=
  Config.header group.name ++ group.settings.flatMap Setting.line

/-- The section as an entry. -/
def SettingGroup.entry (group : SettingGroup) : String × Toml :=
  (group.name, .table .header (group.settings.map Setting.entry))

/-- What the groups at the end of a file do: their tables are put behind the
    entries before, in order. -/
theorem ReadsFile.groups {groups : List SettingGroup}
    (hnames : (entries.map Prod.fst ++ groups.map SettingGroup.name).Nodup) :
    ReadsFile ⟨entries, path⟩ (groups.flatMap SettingGroup.lines)
      (entries ++ groups.map SettingGroup.entry) := by
  induction groups generalizing entries path with
  | nil =>
      rw [List.map_nil, List.append_nil]
      exact .nil entries path
  | cons group groups ih =>
      have hnew := lookup_of_nodup hnames
      have hmore : ((entries ++ [group.entry]).map Prod.fst ++ groups.map SettingGroup.name).Nodup := by
        rwa [List.map_append, List.map_cons, List.map_nil, List.append_assoc]
      have hrest := @ih _ [group.name] hmore
      rw [List.append_assoc] at hrest
      rw [List.flatMap_cons, SettingGroup.lines, List.append_assoc]
      exact .header group.bare (openTable?_new hnew) (.settings hnew group.distinct hrest)

end Toml

end SharpLint

import Mathlib.Data.Prod.Lex
import Mathlib.Tactic.WLOG
import SharpLint.Edit.Tidy
import SharpLint.Proofs.Session.Places
import SharpLint.Proofs.Text.LineSearch

/-!
# Places Tell Offsets

Reports, editors and tidying each look up the line of an offset. Reports and
editors have a column as well, but not the same one: reports count characters
from one, editors count UTF-16 code units from zero and are sent 32 bits of the
number. The line is the same for all of them, and it is the number of line feeds
before the offset, whether these are counted in characters or in bytes.

Places are compared line first. Of two offsets between characters, the later one
is on a later line, or on the same line with more text before it. More text is
more columns in either unit, as no character takes no unit. So both kinds of
places come in the order of the offsets, and no two offsets share a place. The
32 bits lose nothing as long as the bytes of the text can be counted with them,
since a character never takes more units than bytes.

## Main definitions

* `EditorPosition.words`: a place of an editor, as it is sent.

## Theorems

* `LineTable.start_line_le`: A line starts at or before the cuts that it holds.
* `touchesLine_singleton_iff`: An offset touches the line that holds it.
* `Text.CutsAt.place_lt`: Later cuts have later places.
* `Text.CutsAt.position?_lt`: Reports keep the order of the cuts.
* `Session.words_position_lt`: Editors keep the order of the cuts.
* `Session.positions_tell_offsets`: All lines agree, and places tell offsets.
-/

namespace SharpLint

open Text

/-! ### Lines -/

/-- A line starts at or before the cuts that it holds. -/
theorem LineTable.start_line_le {text : Text} {offset : Nat} (h : text.CutsAt offset) :
    (ofText text).start ((ofText text).line offset) ≤ offset := by
  obtain ⟨a, after, rfl, rfl⟩ := h
  obtain ⟨before, lead, rfl, hlead, hbefore⟩ := exists_lastLine a
  rw [line_cut, start_cut after hlead hbefore, size_append]
  exact Nat.le_add_right _ _

/-- An offset touches the line that holds it, and no other. -/
theorem touchesLine_singleton_iff {table : LineTable} {offset n : Nat} :
    touchesLine table [⟨offset, offset⟩] n = true ↔ n = table.line offset := by
  simp only [touchesLine, List.any_cons, List.any_nil, Bool.or_false, Bool.and_eq_true,
    decide_eq_true_eq]
  omega

/-! ### Places -/

namespace Text.CutsAt

variable {text : Text} {a b : Nat}

/-- The later of two cuts has the later place, in any column that grows with the
    text before it. -/
theorem place_lt {column : Text → Nat}
    (hgrows : ∀ lead mid, mid ≠ [] → column lead < column (lead ++ mid))
    (ha : text.CutsAt a) (hb : text.CutsAt b) (hlt : a < b) :
    ∃ lead behind, text.beforeOnLine? (.ofText text) a = some lead
      ∧ text.beforeOnLine? (.ofText text) b = some behind
      ∧ toLex ((LineTable.ofText text).line a, column lead)
        < toLex ((LineTable.ofText text).line b, column behind) := by
  obtain ⟨before, mid, after, htext, rfl, rfl⟩ := ha.split hb (Nat.le_of_lt hlt)
  have hmid : mid ≠ [] := by
    rintro rfl
    exact Nat.lt_irrefl _ hlt
  obtain ⟨lead, behind, hlead, hbehind, horder⟩ := exists_beforeOnLine? htext
  rw [size_append] at hbehind horder
  refine ⟨lead, behind, hlead, hbehind, Prod.Lex.toLex_lt_toLex.2 ?_⟩
  rcases horder with hline | ⟨hline, rfl⟩
  · exact .inl hline
  · -- What stands between the cuts widens the column.
    exact .inr ⟨hline, hgrows lead mid hmid⟩

/-- The later of two cuts has the later place in reports. -/
theorem position?_lt (ha : text.CutsAt a) (hb : text.CutsAt b) (hlt : a < b) :
    ∃ p q, text.position? (.ofText text) a = some p ∧ text.position? (.ofText text) b = some q
      ∧ toLex p < toLex q := by
  have hgrows (lead mid : Text) (hmid : mid ≠ []) : lead.length < (lead ++ mid).length := by
    have := List.length_pos_iff.2 hmid
    rw [List.length_append]
    omega
  obtain ⟨lead, behind, hlead, hbehind, horder⟩ := ha.place_lt hgrows hb hlt
  refine ⟨_, _, by rw [position?, column?, hlead]; rfl,
    by rw [position?, column?, hbehind]; rfl, ?_⟩
  -- Both numbers count from one.
  rw [Prod.Lex.toLex_lt_toLex] at horder ⊢
  rcases horder with hline | ⟨hline, hcolumn⟩
  · exact .inl (Nat.succ_lt_succ hline)
  · exact .inr ⟨congrArg Nat.succ hline, Nat.succ_lt_succ hcolumn⟩

/-- Different cuts have different places in reports. -/
theorem position?_ne (ha : text.CutsAt a) (hb : text.CutsAt b) (hne : a ≠ b) :
    text.position? (.ofText text) a ≠ text.position? (.ofText text) b := by
  wlog hlt : a < b generalizing a b
  · exact (this hb ha hne.symm (by omega)).symm
  intro hsame
  obtain ⟨p, q, hp, hq, horder⟩ := ha.position?_lt hb hlt
  rw [hp, hq, Option.some.injEq] at hsame
  exact absurd horder (hsame ▸ lt_irrefl _)

end Text.CutsAt

/-- A place as it is sent, in 32 bits for each of its numbers. -/
def EditorPosition.words (place : EditorPosition) : UInt32 × UInt32 :=
  (UInt32.ofNat place.line, UInt32.ofNat place.character)

namespace Session

variable {document : Document} {a b : Nat}

/-- The place of a cut is sent as it is: the line of the cut, and the units before
    it on the line. -/
theorem words_position (hlines : document.lines = .ofText document.source)
    (hsmall : document.source.size < UInt32.size) (ha : document.source.CutsAt a) {lead : Text}
    (hlead : document.source.beforeOnLine? (.ofText document.source) a = some lead) :
    (position document a).words.1.toNat = (LineTable.ofText document.source).line a
      ∧ (position document a).words.2.toNat = units16 lead := by
  -- Neither number is greater than the units of the source.
  obtain ⟨before, after, hsource, rfl⟩ := ha
  have hbound := position_bound hsource hlines
  have hunits := units16_le_size document.source
  rw [position_of_before hlines hlead] at hbound ⊢
  exact ⟨UInt32.toNat_ofNat_of_lt' (by omega), UInt32.toNat_ofNat_of_lt' (by omega)⟩

/-- The later of two cuts has the later place in editors. -/
theorem words_position_lt (hlines : document.lines = .ofText document.source)
    (hsmall : document.source.size < UInt32.size) (ha : document.source.CutsAt a)
    (hb : document.source.CutsAt b) (hlt : a < b) :
    toLex (position document a).words < toLex (position document b).words := by
  have hgrows (lead mid : Text) (hmid : mid ≠ []) : units16 lead < units16 (lead ++ mid) := by
    have := units16_pos hmid
    rw [units16_append]
    omega
  obtain ⟨lead, behind, hlead, hbehind, horder⟩ := ha.place_lt hgrows hb hlt
  obtain ⟨haLine, haCharacter⟩ := words_position hlines hsmall ha hlead
  obtain ⟨hbLine, hbCharacter⟩ := words_position hlines hsmall hb hbehind
  -- Words are compared as the numbers that they stand for.
  rw [Prod.Lex.toLex_lt_toLex] at horder ⊢
  simp only [UInt32.lt_iff_toNat_lt, ← UInt32.toNat_inj, haLine, haCharacter, hbLine, hbCharacter]
  exact horder

/-- Different cuts have different places in editors. -/
theorem words_position_ne (hlines : document.lines = .ofText document.source)
    (hsmall : document.source.size < UInt32.size) (ha : document.source.CutsAt a)
    (hb : document.source.CutsAt b) (hne : a ≠ b) :
    (position document a).words ≠ (position document b).words := by
  wlog hlt : a < b generalizing a b
  · exact (this hb ha hne.symm (by omega)).symm
  intro hsame
  have horder := words_position_lt hlines hsmall ha hb hlt
  rw [hsame, Prod.Lex.toLex_lt_toLex] at horder
  rcases horder with hline | ⟨-, hcharacter⟩
  · exact UInt32.lt_irrefl _ hline
  · exact UInt32.lt_irrefl _ hcharacter

/-- The line of a cut is the number of line feeds before it, in bytes: for the
    search in the table of the bytes and in that of the characters, for documents,
    editors and tidying. It starts at or before the cut. The places of cuts come in
    the order of the cuts, line first, in reports as well as in editors, and so
    tell the cuts. -/
theorem positions_tell_offsets (text : Text) (hsmall : text.size < UInt32.size) :
    LineTable.ofBytes (Utf8.encode text).toList = (Document.parse text).lines
      ∧ (∀ offset, text.CutsAt offset →
        let feeds := ((Utf8.encode text).toList.take offset).count 0x0A
        (LineTable.ofBytes (Utf8.encode text).toList).find? offset = some feeds
          ∧ (LineTable.ofText text).find? offset = some feeds
          ∧ (Document.parse text).lines.line offset = feeds
          ∧ (position (.parse text) offset).words.1.toNat = feeds
          ∧ (∀ n, touchesLine (.ofText text) [⟨offset, offset⟩] n = true ↔ n = feeds)
          ∧ (Document.parse text).lines.start ((Document.parse text).lines.line offset) ≤ offset)
      ∧ (∀ a b, text.CutsAt a → text.CutsAt b → a < b →
        (∃ p q, text.position? (Document.parse text).lines a = some p
          ∧ text.position? (Document.parse text).lines b = some q ∧ toLex p < toLex q)
        ∧ toLex (position (.parse text) a).words < toLex (position (.parse text) b).words)
      ∧ ∀ a b, text.CutsAt a → text.CutsAt b → a ≠ b →
        text.position? (Document.parse text).lines a ≠ text.position? (Document.parse text).lines b
        ∧ (position (.parse text) a).words ≠ (position (.parse text) b).words := by
  have hbytes := LineTable.ofBytes_encode text
  refine ⟨hbytes, fun offset hcut => ?_, fun a b ha hb hlt => ?_, fun a b ha hb hne => ?_⟩
  · intro feeds
    -- All lines are told by the one of the table of the text.
    have hline : (LineTable.ofText text).line offset = feeds := LineTable.line_eq_count_encode hcut
    have hfind := LineTable.find?_ofText text offset
    rw [hline] at hfind
    obtain ⟨lead, hlead⟩ := hcut.exists_before
    have hword : (position (.parse text) offset).words.1.toNat
        = (LineTable.ofText text).line offset := (words_position rfl hsmall hcut hlead).1
    refine ⟨by rw [hbytes, hfind], hfind, hline, hword.trans hline, fun n => ?_,
      LineTable.start_line_le hcut⟩
    rw [touchesLine_singleton_iff, hline]
  · exact ⟨ha.position?_lt hb hlt, words_position_lt rfl hsmall ha hb hlt⟩
  · exact ⟨ha.position?_ne hb hne, words_position_ne rfl hsmall ha hb hne⟩

/-- A text whose bytes, units and characters differ in number. -/
def unevenText : Text :=
  "a\r\n\n😀é!\nb".toList

/-- Behind the character of four bytes and two units stands the one of two bytes
    and one unit, on the third line of the text. -/
theorem positions_tell_offsets_uneven :
    unevenText.size < UInt32.size ∧ unevenText.CutsAt 8 ∧ unevenText.CutsAt 10
      ∧ (Document.parse unevenText).lines.line 8 = 2
      ∧ (LineTable.ofText unevenText).find? 8 = some 2
      ∧ (position (.parse unevenText) 8).words = (2, 2)
      ∧ (position (.parse unevenText) 10).words = (2, 3)
      ∧ toLex (position (.parse unevenText) 8).words
        < toLex (position (.parse unevenText) 10).words := by
  have hsmall : unevenText.size < UInt32.size := by decide
  have hfirst : unevenText.CutsAt 8 := ⟨"a\r\n\n😀".toList, "é!\nb".toList, rfl, rfl⟩
  have hsecond : unevenText.CutsAt 10 := ⟨"a\r\n\n😀é".toList, "!\nb".toList, rfl, rfl⟩
  obtain ⟨-, hlines, hplaces, -⟩ := positions_tell_offsets unevenText hsmall
  obtain ⟨-, hfind, hline, -⟩ := hlines 8 hfirst
  have htwo : (Document.parse unevenText).lines.line 8 = 2 := by decide
  rw [← hline, htwo] at hfind
  exact ⟨hsmall, hfirst, hsecond, htwo, hfind, by decide, by decide,
    (hplaces 8 10 hfirst hsecond (by decide)).2⟩

end Session

end SharpLint

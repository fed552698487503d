import Mathlib.Tactic.SplitIfs
import SharpLint.Files.Utf8

/-!
# Written Texts Are Read Back

The bytes of a character announce by the first of them how many there are, and
each of the others carries six bits. A reader that stands before them takes the
character and passes over its bytes, so the bytes of a text are read as the
text.

The bounds on the second byte are those of Unicode: a character that is written
with three bytes needs them and is no surrogate, and one that is written with
four needs them and is not past the last plane.

## Theorems

* `Utf8.head_utf8EncodeChar`: At the head of the bytes of a character stands
  the character.
* `Utf8.decodeFrom_flatMap`: Reading takes the characters one after another.
* `Utf8.decode_encode`: The bytes of a text are read as the text.
-/

namespace SharpLint

namespace Utf8

/-! ### Single bytes -/

theorem toNat_ofNat {n : Nat} (h : n < 256) : (UInt8.ofNat n).toNat = n := by
  rw [UInt8.toNat_ofNat', Nat.mod_eq_of_lt h]

theorem width?_ofNat {n : Nat} (h : n < 256) : width? (UInt8.ofNat n) =
    if n < 0x80 then some 1 else if 0xC2 ≤ n ∧ n ≤ 0xDF then some 2
    else if 0xE0 ≤ n ∧ n ≤ 0xEF then some 3 else if 0xF0 ≤ n ∧ n ≤ 0xF4 then some 4
    else none := by
  simp only [width?, UInt8.lt_iff_toNat_lt, UInt8.le_iff_toNat_le, toNat_ofNat h, Bool.and_eq_true,
    decide_eq_true_eq]
  rfl

theorem continues_ofNat {n : Nat} (h : n < 256) :
    continues (UInt8.ofNat n) = decide (0x80 ≤ n ∧ n ≤ 0xBF) := by
  simp only [continues, UInt8.le_iff_toNat_le, toNat_ofNat h, Bool.decide_and]
  rfl

theorem admits_ofNat {m n : Nat} (hm : m < 256) (hn : n < 256) :
    admits (UInt8.ofNat m) (UInt8.ofNat n) =
      if m = 0xE0 then decide (0xA0 ≤ n ∧ n ≤ 0xBF)
      else if m = 0xED then decide (0x80 ≤ n ∧ n ≤ 0x9F)
      else if m = 0xF0 then decide (0x90 ≤ n ∧ n ≤ 0xBF)
      else if m = 0xF4 then decide (0x80 ≤ n ∧ n ≤ 0x8F)
      else decide (0x80 ≤ n ∧ n ≤ 0xBF) := by
  simp only [admits, continues_ofNat hn, UInt8.le_iff_toNat_le, ← UInt8.toNat_inj, toNat_ofNat hm,
    toNat_ofNat hn, Bool.decide_and]
  rfl

theorem continues_ofNat_add {n : Nat} (h : n < 64) : continues (UInt8.ofNat (n + 128)) = true := by
  rw [continues_ofNat (by omega), decide_eq_true_eq]
  omega

theorem payload_ofNat_add {n : Nat} (h : n < 64) : payload (UInt8.ofNat (n + 128)) = n := by
  rw [payload, toNat_ofNat (by omega)]
  omega

/-! ### Characters -/

variable {a b c d : Nat} (rest : List UInt8)

theorem head_ofNat (ha : a < 128) : head (UInt8.ofNat a) rest = .char (Char.ofNat a) 1 := by
  rw [head.eq_def, width?_ofNat (by omega), if_pos ha]
  simp only [toNat_ofNat (show a < 256 by omega)]

theorem head_ofNat_two (ha : 2 ≤ a ∧ a < 32) (hb : b < 64) :
    head (UInt8.ofNat (a + 192)) (UInt8.ofNat (b + 128) :: rest)
      = .char (Char.ofNat (a * 64 + b)) 2 := by
  rw [head.eq_def, width?_ofNat (by omega), if_neg (by omega), if_pos (by omega)]
  simp only [continues_ofNat_add hb, payload_ofNat_add hb, toNat_ofNat (show a + 192 < 256 by omega),
    if_true]
  rw [show (a + 192) % 32 = a by omega]

theorem head_ofNat_three (ha : a < 16) (hb : b < 64) (hc : c < 64) (hlong : a = 0 → 32 ≤ b)
    (hplain : a = 13 → b < 32) :
    head (UInt8.ofNat (a + 224)) (UInt8.ofNat (b + 128) :: UInt8.ofNat (c + 128) :: rest)
      = .char (Char.ofNat ((a * 64 + b) * 64 + c)) 3 := by
  have hadmits : admits (UInt8.ofNat (a + 224)) (UInt8.ofNat (b + 128)) = true := by
    rw [admits_ofNat (by omega) (by omega)]
    split_ifs <;> rw [decide_eq_true_eq] <;> omega
  rw [head.eq_def, width?_ofNat (by omega), if_neg (by omega), if_neg (by omega),
    if_pos (by omega)]
  simp only [hadmits, continues_ofNat_add hc, payload_ofNat_add hb, payload_ofNat_add hc,
    toNat_ofNat (show a + 224 < 256 by omega), if_true]
  rw [show (a + 224) % 16 = a by omega]

theorem head_ofNat_four (ha : a ≤ 4) (hb : b < 64) (hc : c < 64) (hd : d < 64)
    (hlong : a = 0 → 16 ≤ b) (hlast : a = 4 → b < 16) :
    head (UInt8.ofNat (a + 240))
        (UInt8.ofNat (b + 128) :: UInt8.ofNat (c + 128) :: UInt8.ofNat (d + 128) :: rest)
      = .char (Char.ofNat (((a * 64 + b) * 64 + c) * 64 + d)) 4 := by
  have hadmits : admits (UInt8.ofNat (a + 240)) (UInt8.ofNat (b + 128)) = true := by
    rw [admits_ofNat (by omega) (by omega)]
    split_ifs <;> rw [decide_eq_true_eq] <;> omega
  rw [head.eq_def, width?_ofNat (by omega), if_neg (by omega), if_neg (by omega),
    if_neg (by omega), if_pos (by omega)]
  simp only [hadmits, continues_ofNat_add hc, continues_ofNat_add hd, payload_ofNat_add hb,
    payload_ofNat_add hc, payload_ofNat_add hd, toNat_ofNat (show a + 240 < 256 by omega), if_true]
  rw [show (a + 240) % 8 = a by omega]

/-- At the head of the bytes of a character stands the character. -/
theorem head_utf8EncodeChar (c : Char) (rest : List UInt8) :
    ∃ first more, String.utf8EncodeChar c = first :: more
      ∧ head first (more ++ rest) = .char c c.utf8Size := by
  have hvalid : c.val.toNat < 0xD800 ∨ 0xDFFF < c.val.toNat ∧ c.val.toNat < 0x110000 := c.valid
  have hofNat {n : Nat} (hn : n = c.val.toNat) : Char.ofNat n = c := by
    rw [hn]
    exact Char.ofNat_toNat c
  have hlength := String.length_utf8EncodeChar c
  unfold String.utf8EncodeChar at hlength ⊢
  simp only at hlength ⊢
  generalize c.val.toNat = v at hvalid hofNat hlength ⊢
  -- One case for each number of bytes.
  split at hlength
  · next h1 =>
    rw [if_pos h1]
    refine ⟨_, _, rfl, (head_ofNat _ (by omega)).trans ?_⟩
    rw [hofNat rfl, ← hlength]
    rfl
  next h1 =>
  split at hlength
  · next h2 =>
    rw [if_neg h1, if_pos h2]
    refine ⟨_, _, rfl, (head_ofNat_two _ (by omega) (by omega)).trans ?_⟩
    rw [hofNat (by omega), ← hlength]
    rfl
  next h2 =>
  split at hlength
  · next h3 =>
    rw [if_neg h1, if_neg h2, if_pos h3]
    refine ⟨_, _, rfl, (head_ofNat_three _ (by omega) (by omega) (by omega) (by omega)
      (by omega)).trans ?_⟩
    rw [hofNat (by omega), ← hlength]
    rfl
  · next h3 =>
    rw [if_neg h1, if_neg h2, if_neg h3]
    refine ⟨_, _, rfl, (head_ofNat_four _ (by omega) (by omega) (by omega) (by omega) (by omega)
      (by omega)).trans ?_⟩
    rw [hofNat (by omega), ← hlength]
    rfl

/-! ### Texts -/

/-- Pending bytes are passed over. -/
theorem decodeFrom_pending (index : Nat) (done : Text) (a b : List UInt8) :
    decodeFrom index a.length done (a ++ b) = decodeFrom (index + a.length) 0 done b := by
  induction a generalizing index with
  | nil => rfl
  | cons byte a ih =>
      rw [List.cons_append, List.length_cons, decodeFrom, ih, Nat.add_right_comm, Nat.add_assoc]

/-- Reading takes the characters one after another. -/
theorem decodeFrom_flatMap (index : Nat) (done text : Text) :
    decodeFrom index 0 done (text.flatMap String.utf8EncodeChar) = .ok (done.reverse ++ text) := by
  induction text generalizing index done with
  | nil => rw [List.flatMap_nil, decodeFrom, List.append_nil]
  | cons c text ih =>
      obtain ⟨first, more, hc, hhead⟩ := head_utf8EncodeChar c (text.flatMap String.utf8EncodeChar)
      have hlength : c.utf8Size - 1 = more.length := by
        rw [← String.length_utf8EncodeChar, hc, List.length_cons, Nat.add_sub_cancel]
      rw [List.flatMap_cons, hc, List.cons_append, decodeFrom, hhead]
      simp only
      rw [hlength, decodeFrom_pending, ih, List.reverse_cons, List.append_assoc]
      rfl

/-- An array is listed from byte `i` on, behind the bytes that are listed. -/
theorem toList_loop (bytes : ByteArray) (i : Nat) (listed : List UInt8) :
    ByteArray.toList.loop bytes i listed = listed.reverse ++ bytes.data.toList.drop i := by
  fun_induction ByteArray.toList.loop bytes i listed with
  | case1 i listed h ih =>
      have hbyte : bytes.get! i = bytes.data[i] := getElem!_pos bytes.data i h
      rw [ih, hbyte, List.reverse_cons, List.append_assoc, List.singleton_append,
        ← Array.getElem_toList, List.getElem_cons_drop]
  | case2 i listed h =>
      have hend : bytes.data.toList.length ≤ i := Nat.le_of_not_lt h
      rw [List.drop_eq_nil_of_le hend, List.append_nil]

theorem toList_encode (text : Text) :
    (encode text).toList = text.flatMap String.utf8EncodeChar := by
  rw [encode, ByteArray.toList, toList_loop, List.reverse_nil, List.nil_append, List.drop_zero,
    String.toUTF8, String.toByteArray_ofList, List.utf8Encode, List.toList_data_toByteArray]

/-- The bytes of a text are read as the text. -/
@[simp] theorem decode_encode (text : Text) : decode (encode text).toList = .ok text := by
  rw [toList_encode, decode, decodeFrom_flatMap]
  rfl

end Utf8

end SharpLint

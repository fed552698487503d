import SharpLint.Text.Basic

/-!
# Bytes and Text

The bytes of a file are read as UTF-8. Where they are no text, the fault says
where the first bad sequence begins and how much of it is bad.

## Main definitions

* `Utf8.decode`: the text of a list of bytes.
* `Utf8.encode`: the bytes of a text.
* `Utf8Fault`: why bytes are no text.
-/

namespace SharpLint

/-- Why bytes are no text. -/
inductive Utf8Fault
  /-- `length` bytes from `index` on are no character. -/
  | invalid (length index : Nat)
  /-- The bytes end within the character that begins at `index`. -/
  | incomplete (index : Nat)
  deriving DecidableEq, Repr

/-- The fault in words. -/
def Utf8Fault.message : Utf8Fault → String
  | .invalid length index =>
    "invalid utf-8 sequence of " ++ toString length ++ " bytes from index " ++ toString index
  | .incomplete index => "incomplete utf-8 byte sequence from index " ++ toString index

namespace Utf8

/-- What stands at the head of some bytes. -/
inductive Head
  /-- A character that takes `length` bytes. -/
  | char (c : Char) (length : Nat)
  /-- `length` bytes that are no character. -/
  | bad (length : Nat)
  /-- The start of a character, cut off. -/
  | cut
  deriving Repr

/-- Whether a byte goes on with a character. -/
def continues (byte : UInt8) : Bool :=
  0x80 ≤ byte && byte ≤ 0xBF

/-- The bits that a byte adds to a character. -/
def payload (byte : UInt8) : Nat :=
  byte.toNat % 64

/-- The number of bytes of the character that begins with the byte, if one
    may. -/
def width? (byte : UInt8) : Option Nat :=
  if byte < 0x80 then some 1
  else if 0xC2 ≤ byte && byte ≤ 0xDF then some 2
  else if 0xE0 ≤ byte && byte ≤ 0xEF then some 3
  else if 0xF0 ≤ byte && byte ≤ 0xF4 then some 4
  else none

/-- Whether `second` may follow `first` in a character of more than two bytes:
    no shorter form of it exists, and it is no surrogate and not too great. -/
def admits (first second : UInt8) : Bool :=
  if first = 0xE0 then 0xA0 ≤ second && second ≤ 0xBF
  else if first = 0xED then 0x80 ≤ second && second ≤ 0x9F
  else if first = 0xF0 then 0x90 ≤ second && second ≤ 0xBF
  else if first = 0xF4 then 0x80 ≤ second && second ≤ 0x8F
  else continues second

/-- What stands at the head of the bytes. -/
def head (first : UInt8) (rest : List UInt8) : Head :=
  match width? first with
  | none => .bad 1
  | some 1 => .char (Char.ofNat first.toNat) 1
  | some 2 =>
    match rest with
    | b :: _ =>
      if continues b then .char (Char.ofNat (first.toNat % 32 * 64 + payload b)) 2 else .bad 1
    | [] => .cut
  | some 3 =>
    match rest with
    | [] => .cut
    | b :: more =>
      if admits first b then
        match more with
        | [] => .cut
        | c :: _ =>
          if continues c then
            .char (Char.ofNat ((first.toNat % 16 * 64 + payload b) * 64 + payload c)) 3
          else .bad 2
      else .bad 1
  | some _ =>
    match rest with
    | [] => .cut
    | b :: more =>
      if admits first b then
        match more with
        | [] => .cut
        | c :: last =>
          if continues c then
            match last with
            | [] => .cut
            | d :: _ =>
              if continues d then
                .char (Char.ofNat
                  (((first.toNat % 8 * 64 + payload b) * 64 + payload c) * 64 + payload d)) 4
              else .bad 3
          else .bad 2
      else .bad 1

/-- The text of the bytes from byte `index` on, behind the characters `done`,
    last first. The first `pending` bytes belong to a character that is read
    already. -/
def decodeFrom (index pending : Nat) (done : Text) : List UInt8 → Except Utf8Fault Text
  | [] => .ok done.reverse
  | byte :: bytes =>
    match pending with
    | n + 1 => decodeFrom (index + 1) n done bytes
    | 0 =>
      match head byte bytes with
      | .char c length => decodeFrom (index + 1) (length - 1) (c :: done) bytes
      | .bad length => .error (.invalid length index)
      | .cut => .error (.incomplete index)

/-- The text of the bytes. -/
def decode (bytes : List UInt8) : Except Utf8Fault Text :=
  decodeFrom 0 0 [] bytes

/-- The bytes of a text. -/
def encode (text : Text) : ByteArray :=
  (String.ofList text).toUTF8

end Utf8

end SharpLint

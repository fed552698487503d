import SharpLint.Files.Utf8
import SharpLint.Text.Digit

/-!
# Addresses of Documents

An editor names a document by its address. The address of a file holds its
path, in which a percent sign and two hexadecimal digits stand for a byte; other
documents are only known to the editor.

## Main definitions

* `Address`: the address of a document.
* `Address.filePath?`: the path of the file at an address.
-/

namespace SharpLint

/-- The address of a document. -/
abbrev Address := String

namespace Address

/-- The bytes that a text stands for. -/
def decodeBytes : Text → List UInt8
  | [] => []
  | '%' :: high :: low :: rest =>
    if Digit.isHexadecimal high && Digit.isHexadecimal low then
      UInt8.ofNat (Digit.number 16 [high, low]) :: decodeBytes rest
    else '%'.toUInt8 :: decodeBytes (high :: low :: rest)
  | c :: rest => String.utf8EncodeChar c ++ decodeBytes rest

/-- What stands behind the scheme of an address, up to a query or a
    fragment. -/
def hierarchy (address : Address) : Text :=
  ((address.toList.dropWhile (· != ':')).drop 1).takeWhile fun c => c != '?' && c != '#'

/-- The path of the file at an address on this machine. -/
def filePath? (address : Address) : Option String :=
  let path? :=
    match hierarchy address with
    | '/' :: '/' :: rest =>
      let host := String.ofList (rest.takeWhile (· != '/'))
      if host = "" || host = "localhost" then some (rest.dropWhile (· != '/')) else none
    | '/' :: rest => some ('/' :: rest)
    | _ => none
  path?.bind fun path =>
    match Utf8.decode (decodeBytes path) with
    | .ok decoded => some (String.ofList decoded)
    | .error _ => none

end Address

end SharpLint

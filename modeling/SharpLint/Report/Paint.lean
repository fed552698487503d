/-!
# Painted Text

Text for a terminal, painted with the control sequences that terminals obey.
Where colours are off the text is left as it is, and empty text is never
painted.

## Main definitions

* `Paint`: a way of painting.
* `Paint.apply`: text in a paint.
-/

namespace SharpLint

/-- A way of painting text. -/
inductive Paint
  | bold
  | dimmed
  | red
  | green
  | yellow
  | boldRed
  | boldGreen
  | boldYellow
  | boldCyan
  deriving DecidableEq, Repr

namespace Paint

/-- The numbers by which a terminal knows the paint. -/
def code : Paint → String
  | .bold => "1"
  | .dimmed => "2"
  | .red => "31"
  | .green => "32"
  | .yellow => "33"
  | .boldRed => "1;31"
  | .boldGreen => "1;32"
  | .boldYellow => "1;33"
  | .boldCyan => "1;36"

/-- The text in the paint, if colours are on. -/
def apply (paint : Paint) (colours : Bool) (text : String) : String :=
  if colours && text != "" then "\x1b[" ++ paint.code ++ "m" ++ text ++ "\x1b[0m" else text

end Paint

end SharpLint

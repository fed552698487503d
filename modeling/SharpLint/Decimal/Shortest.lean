/-!
# Shortest Decimals

A real number is kept as a binary fraction `c · 2 ^ q` whose coefficient `c` has
at most 53 bits, the nearest one to the decimal that was written. It is shown by the fewest
digits that are nearer to it than to any other such fraction.

## Main definitions

* `Decimal`: `digits · 10 ^ exponent`.
* `Decimal.toBinary?`: the nearest binary fraction, ties to the even one.
* `Binary.shortest`: the decimal that shows a binary fraction.
* `Decimal.positional`: a decimal with a point and no exponent.
-/

namespace SharpLint

/-- The number `digits · 10 ^ exponent`. -/
structure Decimal where
  digits : Nat
  exponent : Int
  deriving DecidableEq, Repr

/-- The number `coefficient · 2 ^ exponent`. -/
structure Binary where
  coefficient : Nat
  exponent : Int
  deriving DecidableEq, Repr

/-- A fraction of two numbers. -/
structure Ratio where
  num : Nat
  den : Nat
  deriving DecidableEq, Repr

namespace Ratio

/-- The number `n · base ^ exponent`. -/
def ofPower (n base : Nat) (exponent : Int) : Ratio :=
  if 0 ≤ exponent then ⟨n * base.pow exponent.toNat, 1⟩ else ⟨n, base.pow (-exponent).toNat⟩

/-- The fraction divided by `base ^ exponent`. -/
def shift (ratio : Ratio) (base : Nat) (exponent : Int) : Ratio :=
  if 0 ≤ exponent then ⟨ratio.num, ratio.den * base.pow exponent.toNat⟩
  else ⟨ratio.num * base.pow (-exponent).toNat, ratio.den⟩

/-- The nearest whole number, a tie going to the even one. -/
def round (ratio : Ratio) : Nat :=
  let quotient := ratio.num / ratio.den
  let twice := 2 * (ratio.num % ratio.den)
  if twice < ratio.den then quotient
  else if ratio.den < twice then quotient + 1
  else quotient + quotient % 2

/-- Whether one fraction is at most another. -/
def le (a b : Ratio) : Bool := a.num * b.den ≤ b.num * a.den

/-- Whether one fraction is less than another. -/
def lt (a b : Ratio) : Bool := a.num * b.den < b.num * a.den

/-- The distance of two fractions. -/
def distance (a b : Ratio) : Ratio :=
  let left := a.num * b.den
  let right := b.num * a.den
  ⟨(left - right) + (right - left), a.den * b.den⟩

end Ratio

/-- The least number of 53 bits. -/
def Binary.leastFull : Nat := 0x10000000000000

/-- The least exponent of a binary fraction. -/
def Binary.leastExponent : Int := -1074

/-- The greatest exponent of a binary fraction. -/
def Binary.greatestExponent : Int := 971

/-- The nearest binary fraction; there is none beyond the greatest one. -/
def Decimal.toBinary? (decimal : Decimal) : Option Binary :=
  if decimal.digits = 0 then some ⟨0, Binary.leastExponent⟩
  else
    let ratio := Ratio.ofPower decimal.digits 10 decimal.exponent
    let scale : Int := (Nat.log2 ratio.num : Int) - Nat.log2 ratio.den
    -- one of two exponents gives a coefficient of 53 bits
    let at? (exponent : Int) : Option Binary :=
      let exponent := max exponent Binary.leastExponent
      let coefficient := (ratio.shift 2 exponent).round
      if coefficient < 2 * Binary.leastFull then some ⟨coefficient, exponent⟩
      else if coefficient = 2 * Binary.leastFull then some ⟨Binary.leastFull, exponent + 1⟩
      else none
    let found := (at? (scale - 53)).or (at? (scale - 52))
    found.filter fun binary => binary.exponent ≤ Binary.greatestExponent

namespace Binary

/-- The value of the binary fraction. -/
def value (binary : Binary) : Ratio :=
  .ofPower binary.coefficient 2 binary.exponent

/-- The middle between the fraction and the one below it. -/
def lowerBound (binary : Binary) : Ratio :=
  if binary.coefficient = leastFull && leastExponent < binary.exponent then
    .ofPower (4 * binary.coefficient - 1) 2 (binary.exponent - 2)
  else .ofPower (2 * binary.coefficient - 1) 2 (binary.exponent - 1)

/-- The middle between the fraction and the one above it. -/
def upperBound (binary : Binary) : Ratio :=
  .ofPower (2 * binary.coefficient + 1) 2 (binary.exponent - 1)

/-- Whether a number is read back as the fraction. -/
def attracts (binary : Binary) (ratio : Ratio) : Bool :=
  if binary.coefficient % 2 = 0 then
    binary.lowerBound.le ratio && ratio.le binary.upperBound
  else binary.lowerBound.lt ratio && ratio.lt binary.upperBound

/-- The better of the two neighbours of the fraction among the multiples of
    `10 ^ exponent`, if one of them is read back as the fraction. -/
def onGrid? (binary : Binary) (exponent : Int) : Option Decimal :=
  let scaled := binary.value.shift 10 exponent
  let below := scaled.num / scaled.den
  let candidates := [below, below + 1].filter fun n =>
    n != 0 && binary.attracts (.ofPower n 10 exponent)
  match candidates with
  | [] => none
  | [n] => some ⟨n, exponent⟩
  | n :: m :: _ =>
    let distance (k : Nat) := Ratio.distance ⟨k, 1⟩ scaled
    some ⟨if (distance m).lt (distance n) then m else n, exponent⟩

/-- The decimal of fewest digits that is read back as the fraction. The
    coarsest grid that holds one is searched from `exponent` down, in at most
    `fuel` steps. -/
def shortestFrom (binary : Binary) : Nat → Int → Decimal
  | 0, exponent => ⟨0, exponent⟩
  | fuel + 1, exponent =>
    match binary.onGrid? exponent with
    | some decimal => decimal
    | none => shortestFrom binary fuel (exponent - 1)

/-- The decimal that shows the binary fraction. -/
def shortest (binary : Binary) : Decimal :=
  if binary.coefficient = 0 then ⟨0, 0⟩ else binary.shortestFrom 700 310

end Binary

/-- The decimal with a point and no exponent. -/
def Decimal.positional (decimal : Decimal) : String :=
  let digits := toString decimal.digits
  if 0 ≤ decimal.exponent then
    if decimal.digits = 0 then "0.0"
    else digits ++ String.ofList (List.replicate decimal.exponent.toNat '0') ++ ".0"
  else
    let places := (-decimal.exponent).toNat
    let padded := List.replicate (places + 1 - digits.length) '0' ++ digits.toList
    let whole := padded.take (padded.length - places)
    let fraction := padded.drop (padded.length - places)
    String.ofList (whole ++ '.' :: fraction)

example : (Decimal.toBinary? ⟨15, -1⟩).map (fun b => b.shortest.positional) = some "1.5" := by
  decide +kernel

end SharpLint

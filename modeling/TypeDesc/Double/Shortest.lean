/-
The decimal text of a number: the fewest digits that are enough to find the
number again, and of those the nearest to it. Numbers from a ten-thousandth up
to below ten to the sixteenth are written out, others with an exponent.
-/
import TypeDesc.Double.Basic

namespace TypeDesc.Double

/-- Digits behind a decimal point, times a power of ten: `0.digits * 10 ^ point`. -/
structure Digits where
  digits : List Char
  point : Int
deriving DecidableEq, Repr

/-- The digits of `n * 10 ^ power`, without zeros at their end. -/
def Digits.ofNat (n : Nat) (power : Int) : Digits :=
  let digits := Nat.toDigits 10 n
  ⟨(digits.reverse.dropWhile (· = '0')).reverse, digits.length + power⟩

/-- The least power of ten above `num / den`, a positive number of this format. -/
def scaleOf (num den : Nat) : Int :=
  (digitCount (num * .pow 10 400 / den) : Int) - 400

/-- The number with `count` digits that is nearest to `num / den` among those that `isFound` takes,
where `scale` is the least power of ten above `num / den`. -/
def nearestWith (isFound : Nat → Int → Bool) (num den : Nat) (scale : Int) (count : Nat) :
    Option Digits :=
  let power := scale - count
  let num := num * .pow 10 (-power).toNat
  let den := den * .pow 10 power.toNat
  let below := num / den
  match isFound below power, isFound (below + 1) power with
  | true, true => some (.ofNat (roundedQuotient num den) power)
  | true, false => some (.ofNat below power)
  | false, true => some (.ofNat (below + 1) power)
  | false, false => none

/-- The fewest digits with which a positive number is found again. Seventeen are always enough. -/
def shortestDigits (mantissa : Nat) (exponent : Int) : Digits :=
  let num := mantissa * .pow 2 exponent.toNat
  let den := Nat.pow 2 (-exponent).toNat
  let isFound := fun digits power => ofDecimal false digits power == .finite false mantissa exponent
  let found := (List.range 17).findSome? fun fewer =>
    nearestWith isFound num den (scaleOf num den) (fewer + 1)
  found.getD (.ofNat num 0)

/-- An exponent with its sign and at least two digits. -/
def exponentText (power : Int) : List Char :=
  let digits := Nat.toDigits 10 power.natAbs
  (if power < 0 then '-' else '+') :: (if digits.length < 2 then '0' :: digits else digits)

/-- The text of digits. -/
def Digits.text (d : Digits) : List Char :=
  let count : Int := d.digits.length
  if d.point ≤ -4 || 16 < d.point then
    let fraction := d.digits.drop 1
    d.digits.take 1 ++ (if fraction = [] then [] else '.' :: fraction) ++
      'e' :: exponentText (d.point - 1)
  else if d.point ≤ 0 then '0' :: '.' :: List.replicate (-d.point).toNat '0' ++ d.digits
  else if count ≤ d.point then
    d.digits ++ List.replicate (d.point - count).toNat '0' ++ ['.', '0']
  else d.digits.take d.point.toNat ++ '.' :: d.digits.drop d.point.toNat

/-- The text of a number. -/
def text : Double → String
  | .finite negative mantissa exponent =>
    let digits := if mantissa = 0 then "0.0".toList else (shortestDigits mantissa exponent).text
    String.ofList (if negative then '-' :: digits else digits)
  | .infinite negative => if negative then "-inf" else "inf"
  | .undefined => "nan"

end TypeDesc.Double

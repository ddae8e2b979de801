/-
Numbers of the binary format with 53 significant bits. Settings written with a
fraction or an exponent have such a number as their value: the one nearest to
what is written. All arithmetic here is exact, on natural numbers; powers are
`Nat.pow` by name, so that they do not depend on the instances in scope.
-/

namespace TypeDesc

/-- A number of the binary format with 53 significant bits. -/
inductive Double
  /-- The number `mantissa * 2 ^ exponent`, or its negative. Zero has a sign, too. -/
  | finite (negative : Bool) (mantissa : Nat) (exponent : Int)
  | infinite (negative : Bool)
  /-- What is no number. -/
  | undefined
deriving DecidableEq, Repr

namespace Double

/-! ## Rounding -/

/-- The mantissas are below this number. -/
def mantissaLimit : Nat := .pow 2 53

/-- The least exponent. -/
def minExponent : Int := -1074

/-- The greatest exponent. -/
def maxExponent : Int := 971

/-- The whole number nearest to `num / den`; of two that are equally near, the even one. -/
def roundedQuotient (num den : Nat) : Nat :=
  let quotient := num / den
  let rest := num % den
  if 2 * rest < den then quotient
  else if den < 2 * rest then quotient + 1
  else quotient + quotient % 2

/-- Whether `num / den` is at least `2 ^ power`. -/
def reachesPower (num den : Nat) (power : Int) : Bool :=
  den * .pow 2 power.toNat ≤ num * .pow 2 (-power).toNat

/-- The greatest power of two that `num / den`, which is not zero, reaches. -/
def leadingPower (num den : Nat) : Int :=
  let power : Int := (num.log2 : Int) - den.log2
  if reachesPower num den power then power else power - 1

/-- The number nearest to `num / den`, or to its negative. -/
def ofFraction (negative : Bool) (num den : Nat) : Double :=
  if num = 0 then .finite negative 0 minExponent
  else
    let exponent := max (leadingPower num den - 52) minExponent
    let mantissa := roundedQuotient (num * .pow 2 (-exponent).toNat) (den * .pow 2 exponent.toNat)
    let (mantissa, exponent) :=
      if mantissa = mantissaLimit then (mantissa / 2, exponent + 1) else (mantissa, exponent)
    if maxExponent < exponent then .infinite negative else .finite negative mantissa exponent

/-- The number of decimal digits of `n`. -/
def digitCount (n : Nat) : Nat :=
  (Nat.toDigits 10 n).length

/-- The number nearest to `digits * 10 ^ power`, or to its negative. What is far beyond the greatest
or below the least number is not worked out. -/
def ofDecimal (negative : Bool) (digits : Nat) (power : Int) : Double :=
  let size := digitCount digits + power
  if digits = 0 || size < -330 then ofFraction negative 0 1
  else if 310 < size then .infinite negative
  else ofFraction negative (digits * .pow 10 power.toNat) (.pow 10 (-power).toNat)

/-! ## Properties -/

/-- Whether a number is zero. -/
def isZero : Double → Bool
  | .finite _ mantissa _ => mantissa == 0
  | _ => false

/-- The greatest integer that is not above `mantissa * 2 ^ exponent`, or its negative. -/
def floorOf (negative : Bool) (mantissa : Nat) (exponent : Int) : Int :=
  let num : Nat := mantissa * .pow 2 exponent.toNat
  let den : Nat := .pow 2 (-exponent).toNat
  Int.fdiv (if negative then -(num : Int) else num) den

end Double

end TypeDesc

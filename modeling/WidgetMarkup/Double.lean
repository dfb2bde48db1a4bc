namespace WidgetMarkup

/-- A binary64 number, given by its bits. -/
structure Double where
  bits : UInt64
  deriving DecidableEq

namespace Double

def negative (x : Double) : Bool := 0x8000000000000000 ≤ x.bits.toNat

/-- The leading bit of a significand, which the bits of a number leave out. -/
def hiddenBit : Nat := 0x10000000000000

def exponentField (x : Double) : Nat := x.bits.toNat / hiddenBit % 0x800

def fractionField (x : Double) : Nat := x.bits.toNat % hiddenBit

def isFinite (x : Double) : Bool := x.exponentField != 2047

def isNaN (x : Double) : Bool := x.exponentField == 2047 && x.fractionField != 0

def isZero (x : Double) : Bool := x.exponentField == 0 && x.fractionField == 0

/-- The magnitude of a finite number is `significand * 2 ^ exponent`. -/
def significand (x : Double) : Nat :=
  if x.exponentField = 0 then x.fractionField else hiddenBit + x.fractionField

def exponent (x : Double) : Int := (max x.exponentField 1 : Nat) - 1075

/-- Equality of numbers: the two zeros are equal, and no NaN equals anything. -/
def same (x y : Double) : Bool :=
  !x.isNaN && !y.isNaN && (x.bits == y.bits || (x.isZero && y.isZero))

def signed (x : Double) (n : Nat) : Int := if x.negative then -n else n

/-- The value of a finite number without a fractional part. -/
def integer? (x : Double) : Option Int :=
  if !x.isFinite then none
  else if 0 ≤ x.exponent then some (x.signed (x.significand * Nat.pow 2 x.exponent.toNat))
  else
    let unit := Nat.pow 2 (-x.exponent).toNat
    if x.significand % unit = 0 then some (x.signed (x.significand / unit)) else none

end Double
end WidgetMarkup

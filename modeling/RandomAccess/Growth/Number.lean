import RandomAccess.Decimal.Double

/-! The numbers of measurements: integers of any size, and doubles. -/
namespace RandomAccess

inductive Number where
  | int (v : Int)
  | float (x : Float)

/-- Why a computation with measurements has no answer. -/
inductive NumericError where
  /-- A number beyond the range of doubles. -/
  | tooLarge
  /-- An integer of more than 64 bits in a system of equations. -/
  | wideInteger
  /-- The logarithm of an integer of more than 64 bits. -/
  | noLogarithm
  | noSamples
  | unknownShape (name : String)
  /-- A design matrix with an entry that is not a number. -/
  | noConvergence
  | noCheckPoints
deriving DecidableEq, Repr

def NumericError.message : NumericError → String
  | tooLarge => "int too large to convert to float"
  | wideInteger => "integer beyond 64 bits"
  | noLogarithm =>
    "loop of ufunc does not support argument 0 of type int which has no callable log method"
  | noSamples => "not enough values to unpack (expected 2, got 0)"
  | unknownShape name => "Unknown function type: " ++ name
  | noConvergence => "SVD did not converge in Linear Least Squares"
  | noCheckPoints => "division by zero"

namespace Number

def toDouble : Number → Except NumericError Float
  | int v =>
    match Double.ofInt? v with
    | some x => .ok x
    | none => .error .tooLarge
  | float x => .ok x

/-- The integers of 64 bits, signed or not. -/
def isNarrow (v : Int) : Bool := -(pow2 63 : Int) ≤ v && v < (pow2 64 : Int)

/-- The number as an entry of a system of equations. -/
def toEntry : Number → Except NumericError Float
  | int v => if isNarrow v then (int v).toDouble else .error .wideInteger
  | float x => .ok x

/-- A power; that of a double may be too large. -/
def pow : Number → Nat → Except NumericError Number
  | int v, k => .ok (int (v.pow k))
  | float x, k =>
    let y := x ^ k.toFloat
    if y.isInf && x.isFinite then .error .tooLarge else .ok (float y)

def log : Number → Except NumericError Float
  | int v => if isNarrow v then do return (← (int v).toDouble).log else .error .noLogarithm
  | float x => .ok x.log

end Number
end RandomAccess

import RandomAccess.Decimal.Notation
import RandomAccess.Growth.LinearSystem
import RandomAccess.Growth.Number

/-! Growth estimates: the polynomial of least degree that passes through all samples. The estimate
is the same computation over any arithmetic, be it exact or rounded. -/
namespace RandomAccess

/-- A sample: the length of an input, and the steps it took. -/
abbrev Sample (ν : Type) := ν × ν

/-- How samples of numbers `ν` are turned into coefficients `α`. -/
structure SampleArithmetic (ν α ε : Type) where
  pow : ν → Nat → Except ε ν
  toEntry : ν → Except ε α
  /-- How far the polynomial is from a sample. -/
  deviation : List α → Sample ν → Except ε α
  /-- A leading coefficient that is dropped. -/
  negligible : α → Bool

/-- Drops leading coefficients, but never the last one. -/
def trimLeading {α : Type} (negligible : α → Bool) : List α → List α
  | a :: b :: r => if negligible a then trimLeading negligible (b :: r) else a :: b :: r
  | cs => cs

/-- The degree of the polynomial with these coefficients; without any it is -1. -/
def degree {α : Type} (coefs : List α) : Int := (coefs.length : Int) - 1

namespace SampleArithmetic

variable {ν α ε : Type} [Scalar α] (A : SampleArithmetic ν α ε)

/-- The system for the polynomial of degree `order` through the samples. -/
def system (order : Nat) (samples : List (Sample ν)) : Except ε (List (Equation α)) := do
  let rows ← samples.mapM fun s => (List.range (order + 1)).reverse.mapM fun k => A.pow s.1 k
  let lefts ← rows.mapM fun r => r.mapM A.toEntry
  let rights ← samples.mapM fun s => A.toEntry s.2
  return List.zipWith Equation.mk lefts rights

/-- The polynomial is within the tolerance of every sample. -/
def agrees (tolerance : α) (coefs : List α) : List (Sample ν) → Except ε Bool
  | [] => .ok true
  | s :: rest => do
    let d ← A.deviation coefs s
    if Scalar.le d tolerance then agrees tolerance coefs rest else return false

/-- The first order of the list whose polynomial passes through all samples. -/
def search (tolerance : α) (samples : List (Sample ν)) : List Nat → Except ε (Option (List α))
  | [] => .ok none
  | order :: orders => do
    match Equation.solve (← A.system order (samples.take (order + 1))) with
    | none => search tolerance samples orders
    | some coefs =>
      if ← A.agrees tolerance coefs (samples.drop (order + 1)) then
        return some (trimLeading A.negligible coefs)
      else search tolerance samples orders

/-- The coefficients of the polynomial of least degree, at most `maxPow`, that passes through all
samples. -/
def estimate (maxPow : Int) (tolerance : α) (samples : List (Sample ν)) :
    Except ε (Option (List α)) :=
  A.search tolerance samples (List.range (min (maxPow + 1).toNat samples.length))

end SampleArithmetic

/-! ## Doubles -/

namespace Number

/-- Ten to a power, by repeated multiplication. -/
def powerOfTen (n : Nat) : Float := (List.range n).foldl (fun p _ => p * 10) 1

/-- Rounds a coefficient by scaling it; a negative precision rounds to tens, hundreds and so on. -/
def roundScaled (precision : Int) (x : Float) : Float :=
  let p := powerOfTen precision.natAbs
  if 0 ≤ precision then Double.roundInt (x * p) / p else Double.roundInt (x / p) * p

def negligible (precision : Int) (x : Float) : Bool := roundScaled precision x == 0

/-- The value of a polynomial at a number. A constant has its value even at an integer that is too
large for a double. -/
def evaluate (coefs : List Float) (n : Number) : Except NumericError Float :=
  match coefs, n with
  | [], _ => .ok 0
  | [c], .int _ => .ok c
  | _, _ => do return horner coefs (← n.toDouble)

def deviation (coefs : List Float) (s : Sample Number) : Except NumericError Float := do
  let y ← evaluate coefs s.1
  return (y - (← s.2.toDouble)).abs

/-- Measurements computed with doubles. -/
def doubles : SampleArithmetic Number Float NumericError where
  pow := pow
  toEntry := toEntry
  deviation := deviation
  negligible := negligible 6

end Number

/-! ## Rational numbers -/

/-- Integer measurements computed exactly. -/
def exactArithmetic : SampleArithmetic Int Rat Empty where
  pow n k := .ok (n.pow k)
  toEntry n := .ok n
  deviation coefs s := .ok (Scalar.abs (horner coefs (s.1 : Rat) - s.2))
  negligible c := Scalar.abs c * 2000000 ≤ 1

/-! ## Text -/

/-- The text of a polynomial, its coefficients rounded to two places. -/
def polynomialText (coefs : List Float) : String :=
  " + ".intercalate (coefs.zipIdx.map fun (c, i) =>
    "(" ++ Double.text (Double.roundPlaces 2 c) ++ ")x^" ++ toString (coefs.length - (i + 1)))

end RandomAccess

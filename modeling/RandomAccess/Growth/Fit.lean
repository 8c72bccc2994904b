import RandomAccess.Growth.Estimate
import RandomAccess.Growth.LeastSquares

/-! Growth curves fitted to samples by least squares: polynomials, curves linear in the logarithm,
and exponential curves. -/
namespace RandomAccess

inductive Shape where
  | polynomial
  /-- Linear in the logarithm of the length. -/
  | logarithmic
  /-- The logarithm of the steps is linear. -/
  | exponential
deriving DecidableEq, Repr

namespace Shape

def name : Shape → String
  | polynomial => "polynomial"
  | logarithmic => "log"
  | exponential => "exp"

def all : List Shape := [polynomial, logarithmic, exponential]

def ofName? (s : String) : Option Shape := all.find? (·.name = s)

/-- The value of a curve at a length. -/
def value (shape : Shape) (coefs : List Float) (n : Number) : Except NumericError Float :=
  match shape with
  | polynomial => Number.evaluate coefs n
  | logarithmic => do return horner coefs (← n.log)
  | exponential => do return (← Number.evaluate coefs n).exp

/-- The polynomial of degree `order` that fits best. -/
def fit (xs ys : List Float) (order : Nat) : Except NumericError (List Float) :=
  match LeastSquares.polynomial xs ys order with
  | some coefs => .ok coefs
  | none => .error .noConvergence

/-- The coefficients of all curves of a shape: polynomials of every degree up to `maxPow` that the
samples allow, or one curve if the logarithms exist. -/
def fits (shape : Shape) (xs ys : List Float) (maxPow : Int) :
    Except NumericError (List (List Float)) :=
  match shape with
  | polynomial =>
    (List.range (min maxPow ((xs.length : Int) - 1) + 1).toNat).mapM (fit xs ys)
  | logarithmic =>
    if xs.all (0 < ·) then do return [← fit (xs.map Float.log) ys 1] else .ok []
  | exponential =>
    if ys.all (0 < ·) then do return [← fit xs (ys.map Float.log) 1] else .ok []

end Shape

/-- The two columns of a table of samples, as doubles. -/
def columns (samples : List (Sample Number)) :
    Except NumericError (List Float × List Float) := do
  if samples.isEmpty then throw .noSamples
  return (← samples.mapM (·.1.toDouble), ← samples.mapM (·.2.toDouble))

/-- All curves of the shape with the given name. -/
def curves (samples : List (Sample Number)) (name : String) (maxPow : Int) :
    Except NumericError (Shape × List (List Float)) := do
  let (xs, ys) ← columns samples
  match Shape.ofName? name with
  | some shape => return (shape, ← shape.fits xs ys maxPow)
  | none => throw (.unknownShape name)

/-- The mean distance of a curve from check points. -/
def meanDeviation (shape : Shape) (coefs : List Float) (checks : List (Sample Number)) :
    Except NumericError Float := do
  let ds ← checks.mapM fun s => do
    return ((← shape.value coefs s.1) - (← s.2.toDouble)).abs
  if ds.isEmpty then throw .noCheckPoints
  return ds.foldl (· + ·) 0 / ds.length.toFloat

/-- A curve and its mean distance from the check points. -/
structure Choice where
  curve : Option (Shape × List Float) := none
  deviation : Float := 1 / 0

/-- Takes a curve if it is closer to the check points than the one chosen before. -/
def Choice.offer (best : Choice) (checks : List (Sample Number)) (shape : Shape)
    (coefs : List Float) : Except NumericError Choice := do
  let d ← meanDeviation shape coefs checks
  return if d < best.deviation then ⟨some (shape, coefs), d⟩ else best

/-- The curve closest to the check points. -/
def closestCurve (samples checks : List (Sample Number)) (maxPow : Int) :
    Except NumericError Choice := do
  let (xs, ys) ← columns samples
  Shape.all.foldlM (fun best shape => do
    (← shape.fits xs ys maxPow).foldlM (fun best coefs => best.offer checks shape coefs) best) {}

end RandomAccess

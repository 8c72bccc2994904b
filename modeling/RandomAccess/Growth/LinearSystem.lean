/-! Square systems of linear equations, solved by elimination. The row with the greatest leading
coefficient is the pivot; a system without a pivot is singular. -/
namespace RandomAccess

/-- The operations that elimination needs. -/
class Scalar (α : Type) extends Add α, Sub α, Mul α, Div α where
  zero : α
  abs : α → α
  isZero : α → Bool
  lt : α → α → Bool
  le : α → α → Bool

instance : Scalar Float where
  zero := 0
  abs := Float.abs
  isZero x := x == 0
  lt x y := x < y
  le x y := x ≤ y

instance : Scalar Rat where
  zero := 0
  abs x := if x < 0 then -x else x
  isZero x := x == 0
  lt x y := x < y
  le x y := x ≤ y

/-- The value of the polynomial with these coefficients, the leading one first. -/
def horner {α : Type} [Scalar α] (coefs : List α) (x : α) : α :=
  coefs.foldl (fun y c => y * x + c) Scalar.zero

/-- An equation: the coefficients of the unknowns, and the right side. -/
structure Equation (α : Type) where
  coefs : List α
  right : α

namespace Equation

variable {α : Type} [Scalar α]

/-- The coefficient of the first unknown. -/
def lead (e : Equation α) : α := e.coefs.headD Scalar.zero

/-- The equation without its first unknown: a multiple of `pivot` is subtracted. -/
def eliminate (pivot e : Equation α) : Equation α :=
  let factor := e.lead / pivot.lead
  { coefs := List.zipWith (fun a p => a - factor * p) e.coefs.tail pivot.coefs.tail
    right := e.right - factor * pivot.right }

/-- The first unknown of an equation when the others are known. -/
def resolve (e : Equation α) (xs : List α) : α :=
  (List.zipWith (· * ·) e.coefs.tail xs).foldl (· - ·) e.right / e.lead

/-- The first of the equations with the greatest leading coefficient, with its position. -/
def pivot (first : Equation α) (rest : List (Equation α)) : Equation α × Nat :=
  (rest.zipIdx 1).foldl
    (fun best e => if Scalar.lt (Scalar.abs best.1.lead) (Scalar.abs e.1.lead) then e else best)
    (first, 0)

/-- The solution of a square system, unless it is singular. -/
def solve : List (Equation α) → Option (List α)
  | [] => some []
  | first :: rest =>
    let (p, i) := pivot first rest
    if Scalar.isZero p.lead then none
    else
      match solve (((first :: rest).set i first).tail.map p.eliminate) with
      | some xs => some (p.resolve xs :: xs)
      | none => none
termination_by es => es.length

end Equation
end RandomAccess

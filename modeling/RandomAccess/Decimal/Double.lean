import RandomAccess.Decimal.Power

/-! Doubles as exact numbers: every finite double is a sign and a number `m * 2 ^ q`. Whatever
rounds here rounds to the nearest, and from the middle to the even neighbour. -/
namespace RandomAccess

/-- The quotient rounded to the nearest integer, from the middle to the even one. -/
def roundDiv (num den : Nat) : Nat :=
  let q := num / den
  let r := num % den
  if 2 * r < den then q else if den < 2 * r then q + 1 else q + q % 2

namespace Double

/-- What a double stands for. -/
inductive View where
  | nan
  | infinite (negative : Bool)
  /-- The number `m * 2 ^ q`, or its negative. -/
  | finite (negative : Bool) (m : Nat) (q : Int)
deriving DecidableEq, Repr

def viewBits (bits : Nat) : View :=
  let negative : Bool := pow2 63 ≤ bits
  let e : Nat := bits / pow2 52 % pow2 11
  let f : Nat := bits % pow2 52
  if e = 2047 then if f = 0 then .infinite negative else .nan
  else if e = 0 then .finite negative f (-1074)
  else .finite negative (pow2 52 + f) ((e : Int) - 1075)

def view (x : Float) : View := viewBits x.toBits.toNat

/-! ## Nearest doubles -/

/-- The greatest `e` with `2 ^ e ≤ num / den`. -/
def binaryExponent (num den : Nat) : Int :=
  let e : Int := (num.log2 : Int) - den.log2
  if num * pow2 (-e).toNat < den * pow2 e.toNat then e - 1 else e

/-- The bits of infinity. -/
def infinityBits : Nat := 2047 * pow2 52

/-- The bits of the double nearest to the quotient `num / den`. -/
def nearestBits (num den : Nat) : Nat :=
  if num = 0 then 0
  else
    let q := max (binaryExponent num den - 52) (-1074)
    let m := roundDiv (num * pow2 (-q).toNat) (den * pow2 q.toNat)
    min infinityBits (if m < pow2 52 then m else (q + 1075).toNat * pow2 52 + (m - pow2 52))

/-- The double nearest to the quotient `num / den`, with the given sign. -/
def nearest (negative : Bool) (num den : Nat) : Float :=
  Float.ofBits (UInt64.ofNat (nearestBits num den + if negative then pow2 63 else 0))

/-- The double nearest to `digits * 10 ^ exponent`. -/
def ofDecimal (negative : Bool) (digits : Nat) (exponent : Int) : Float :=
  nearest negative (digits * pow10 exponent.toNat) (pow10 (-exponent).toNat)

/-- The double nearest to an integer, unless it is infinite. -/
def ofInt? (v : Int) : Option Float :=
  if nearestBits v.natAbs 1 < infinityBits then some (nearest (v < 0) v.natAbs 1) else none

/-! ## Rounding -/

/-- Rounds to decimal places. -/
def roundPlaces (places : Nat) (x : Float) : Float :=
  match view x with
  | .finite negative m q =>
    nearest negative (roundDiv (m * pow10 places * pow2 q.toNat) (pow2 (-q).toNat)) (pow10 places)
  | _ => x

/-- Rounds to an integer. -/
def roundInt (x : Float) : Float := roundPlaces 0 x

end Double
end RandomAccess

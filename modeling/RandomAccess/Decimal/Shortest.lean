import RandomAccess.Decimal.Double

/-! The decimal with the fewest digits that is nearer to a given double than to any other. -/
namespace RandomAccess.Double

/-- The number `d * 10 ^ k`. -/
structure Digits where
  d : Nat
  k : Int
deriving DecidableEq, Repr

/-- Compares `a * 10 ^ k` with `b * 2 ^ q`. -/
def compareScaled (a : Nat) (k : Int) (b : Nat) (q : Int) : Ordering :=
  compare (a * pow10 k.toNat * pow2 (-q).toNat) (b * pow2 q.toNat * pow10 (-k).toNat)

/-- The decimal rounds to the double `m * 2 ^ q`. The numbers that do lie half a gap to either side;
below a power of two the gap is half as wide. The two ends belong to an even `m`. -/
def readsAs (m : Nat) (q : Int) (c : Digits) : Bool :=
  let below := if m = pow2 52 ∧ -1074 < q then 1 else 2
  let low := compareScaled c.d c.k (4 * m - below) (q - 2)
  let high := compareScaled c.d c.k (4 * m + 2) (q - 2)
  if m % 2 = 0 then low.isGE && high.isLE else low.isGT && high.isLT

/-- The greatest `e` with `10 ^ e ≤ m * 2 ^ q`. A double is never below `10 ^ -330`. -/
def decimalExponent (m : Nat) (q : Int) : Int :=
  (Nat.toDigits 10 (m * pow10 330 * pow2 q.toNat / pow2 (-q).toNat)).length - 331

/-- Of the two neighbours on the grid of `10 ^ k`, the one that reads as `m * 2 ^ q`; of two, the
nearer one; of two equally near, the even one. -/
def onGrid? (m : Nat) (q k : Int) : Option Digits :=
  let d := m * pow10 (-k).toNat * pow2 q.toNat / (pow2 (-q).toNat * pow10 k.toNat)
  let lower : Digits := ⟨d, k⟩
  let upper : Digits := ⟨d + 1, k⟩
  match readsAs m q lower, readsAs m q upper with
  | false, false => none
  | true, false => some lower
  | false, true => some upper
  | true, true =>
    match compareScaled (2 * d + 1) k (2 * m) q with
    | .gt => some lower
    | .lt => some upper
    | .eq => some (if d % 2 = 0 then lower else upper)

/-- The shortest decimal that reads as `m * 2 ^ q`; seventeen digits always suffice. -/
def shortest (m : Nat) (q : Int) : Digits :=
  let e := decimalExponent m q
  ((List.range 17).findSome? fun (n : Nat) => onGrid? m q (e - n)).getD ⟨m, 0⟩

end RandomAccess.Double

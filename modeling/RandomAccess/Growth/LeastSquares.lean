/-! Least squares in doubles. The columns of the design matrix are turned against each other until
they are orthogonal; their norms are then the singular values, and columns with a vanishing norm
are left out, which gives the solution of least norm. -/
namespace RandomAccess.LeastSquares

def dot (a b : List Float) : Float := (List.zipWith (· * ·) a b).foldl (· + ·) 0

def norm (a : List Float) : Float := (dot a a).sqrt

/-- A combination of the columns: the sum, and how much of each column it holds. -/
structure Turned where
  column : List Float
  weights : List Float

def rotate (c s : Float) (a b : List Float) : List Float :=
  List.zipWith (fun x y => c * x - s * y) a b

/-- Turns two columns so that they become orthogonal. -/
def orthogonalize (a b : Turned) : Turned × Turned :=
  let aa := dot a.column a.column
  let bb := dot b.column b.column
  let ab := dot a.column b.column
  if ab == 0 then (a, b)
  else
    let z := (bb - aa) / (2 * ab)
    let t := (if z < 0 then -1 else 1) / (z.abs + (1 + z * z).sqrt)
    let c := 1 / (1 + t * t).sqrt
    let s := c * t
    (⟨rotate c s a.column b.column, rotate c s a.weights b.weights⟩,
      ⟨rotate c (-s) b.column a.column, rotate c (-s) b.weights a.weights⟩)

/-- Turns `a` against every column of the list. -/
def turnAgainst (a : Turned) : List Turned → Turned × List Turned
  | [] => (a, [])
  | b :: rest =>
    let (a, b) := orthogonalize a b
    let (a, rest) := turnAgainst a rest
    (a, b :: rest)

theorem length_turnAgainst (a : Turned) (cs : List Turned) :
    (turnAgainst a cs).2.length = cs.length := by
  induction cs generalizing a with
  | nil => rfl
  | cons b rest ih => simp [turnAgainst, ih]

/-- Turns every pair of columns once. -/
def sweep : List Turned → List Turned
  | [] => []
  | a :: rest =>
    let r := turnAgainst a rest
    r.1 :: sweep r.2
termination_by cs => cs.length
decreasing_by simp [length_turnAgainst]

/-- The gap between one and the next double. -/
def epsilon : Float := 1 / 4503599627370496

/-- Enough sweeps for a handful of columns. -/
def sweeps : Nat := 60

def turn (columns : List (List Float)) : List Turned :=
  let start := columns.zipIdx.map fun (c, i) =>
    (⟨c, (List.range columns.length).map fun j => if i = j then 1 else 0⟩ : Turned)
  (List.range sweeps).foldl (fun cs _ => sweep cs) start

/-- The least squares solution of least norm. Singular values up to `cutoff` times the greatest
count as zero. -/
def solve (columns : List (List Float)) (right : List Float) (cutoff : Float) : List Float :=
  let turned := turn columns
  let greatest := turned.foldl (fun g t => if g < norm t.column then norm t.column else g) 0
  let kept := turned.filter fun t => cutoff * greatest < norm t.column
  kept.foldl (fun xs t =>
    let f := dot t.column right / dot t.column t.column
    List.zipWith (fun x w => x + f * w) xs t.weights) (columns.map fun _ => 0)

/-- The coefficients, the leading one first, of the polynomial of degree `order` that fits the
points best; `none` if the design matrix is not finite. The columns are scaled to norm one. -/
def polynomial (xs ys : List Float) (order : Nat) : Option (List Float) :=
  let powers := ((List.range order).foldl
    (fun cs _ => List.zipWith (· * ·) (cs.headD []) xs :: cs) [xs.map fun _ => 1])
  let scales := powers.map norm
  let columns := List.zipWith (fun c s => c.map (· / s)) powers scales
  if columns.all (·.all Float.isFinite) then
    let cutoff := xs.length.toFloat * epsilon
    some (List.zipWith (· / ·) (solve columns ys cutoff) scales)
  else none

end RandomAccess.LeastSquares

import RandomAccess.Fault

/-! The registers of the machine: one integer for every natural index, zero at first. They are
kept in an array that grows on writes only. -/
namespace RandomAccess

structure Registers where
  cells : Array Int := #[]
  /-- One more than the greatest index written, zero before the first write. -/
  used : Nat := 0
deriving DecidableEq, Repr

namespace Registers

def size (r : Registers) : Nat := r.cells.size

/-- The contents of a register. -/
def cell (r : Registers) (i : Nat) : Int := r.cells.getD i 0

def acc (r : Registers) : Int := r.cell 0

/-- The array for a write to index `i`: if it is too short it is at least doubled. -/
def reserve (cells : Array Int) (i : Nat) : Array Int :=
  if i < cells.size then cells
  else cells ++ Array.replicate (max (i + 1) (2 * cells.size) - cells.size) 0

def put (r : Registers) (i : Nat) (v : Int) : Registers where
  cells := (reserve r.cells i).setIfInBounds i v
  used := max r.used (i + 1)

theorem lt_size_reserve (cells : Array Int) (i : Nat) : i < (reserve cells i).size := by
  unfold reserve
  split
  · assumption
  · simp only [Array.size_append, Array.size_replicate]
    omega

theorem getD_reserve (cells : Array Int) (i j : Nat) :
    (reserve cells i).getD j 0 = cells.getD j 0 := by
  unfold reserve
  split
  · rfl
  · simp only [Array.getD_eq_getD_getElem?, Array.getElem?_append, Array.getElem?_replicate]
    split
    · rfl
    · rename_i h
      rw [Array.getElem?_eq_none (by omega)]
      split <;> rfl

/-- A write changes its own register and no other. -/
theorem cell_put (r : Registers) (i j : Nat) (v : Int) :
    (r.put i v).cell j = if i = j then v else r.cell j := by
  have h := lt_size_reserve r.cells i
  have hg := getD_reserve r.cells i j
  simp only [cell, put, Array.getD_eq_getD_getElem?, Array.getElem?_setIfInBounds] at *
  by_cases e : i = j
  · simp [e, e ▸ h]
  · simpa [e] using hg

/-! ## Indices from a program -/

def index (i : Int) : Except Failure Nat :=
  if i < 0 then .error (.ofFault (.invalidIndex i)) else .ok i.toNat

def get (r : Registers) (i : Int) : Except Failure Int := do
  return r.cell (← index i)

def set (r : Registers) (i : Int) (v : Int) : Except Failure Registers := do
  return r.put (← index i) v

/-! ## Arithmetic -/

inductive Arithmetic where
  | assign | add | sub | mul | div
deriving DecidableEq, Repr

/-- The quotient of the absolute values without its fraction, negative if exactly one of the two numbers
is. -/
def quotient (a v : Int) : Int :=
  let q : Nat := a.natAbs / v.natAbs
  if decide (a < 0) != decide (v < 0) then -q else q

/-- The result of an operation on the present contents `a` of a register. -/
def Arithmetic.apply (op : Arithmetic) (a v : Int) : Int :=
  match op with
  | .assign => v
  | .add => a + v
  | .sub => a - v
  | .mul => a * v
  | .div => quotient a v

theorem quotient_eq_tdiv (a v : Int) : quotient a v = a.tdiv v := by
  have hq : ((a.natAbs / v.natAbs : Nat) : Int) = (a.natAbs : Int).tdiv v.natAbs := Int.ofNat_tdiv _ _
  have hsign : (decide (a < 0) != decide (v < 0)) = true ↔ ¬ (a < 0 ↔ v < 0) := by simp
  simp only [quotient, hsign, hq]
  rcases Int.lt_or_le a 0 with ha | ha <;> rcases Int.lt_or_le v 0 with hv | hv
  · rw [if_neg (by omega), Int.ofNat_natAbs_of_nonpos (by omega), Int.ofNat_natAbs_of_nonpos (by omega),
      Int.neg_tdiv, Int.tdiv_neg, Int.neg_neg]
  · rw [if_pos (by omega), Int.ofNat_natAbs_of_nonpos (by omega), Int.natAbs_of_nonneg hv, Int.neg_tdiv,
      Int.neg_neg]
  · rw [if_pos (by omega), Int.natAbs_of_nonneg ha, Int.ofNat_natAbs_of_nonpos (by omega), Int.tdiv_neg,
      Int.neg_neg]
  · rw [if_neg (by omega), Int.natAbs_of_nonneg ha, Int.natAbs_of_nonneg hv]

/-- Division needs a divisor that is not zero. -/
def Arithmetic.check (op : Arithmetic) (v : Int) : Except Failure Unit :=
  if op = .div ∧ v = 0 then .error (.fault .divisionByZero) else .ok ()

/-- Applies an operation to a register. A zero divisor is noticed before a negative index. -/
def update (r : Registers) (op : Arithmetic) (i : Int) (v : Int) : Except Failure Registers := do
  op.check v
  let k ← index i
  return r.put k (op.apply (r.cell k) v)

/-! ## Views -/

/-- The first registers; a negative count shows none. -/
def window (r : Registers) (count : Int := 10) : List Int :=
  (List.range count.toNat).map r.cell

/-- The registers that are not zero, with their indices. -/
def occupied (r : Registers) : List (Nat × Int) :=
  ((List.range r.used).map fun i => (i, r.cell i)).filter (·.2 ≠ 0)

def text (r : Registers) : Except DigitLimitError String :=
  if r.occupied.all fun e => Numeral.writable e.2 then
    .ok ("RegisterFile(" ++
      ", ".intercalate (r.occupied.map fun e => "R" ++ toString e.1 ++ "=" ++ Numeral.text e.2) ++
      ")")
  else .error .writing

end Registers
end RandomAccess

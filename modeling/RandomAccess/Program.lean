import RandomAccess.Fault
import RandomAccess.Text.Lowercase

/-! Programs: instructions in order, and the table of their labels. -/
namespace RandomAccess

structure Program where
  instructions : Array Instruction := #[]
  /-- The labels in small letters with the indices of their instructions, in program order. -/
  labels : List (String × Nat) := []
deriving DecidableEq, Repr

namespace Program

def size (p : Program) : Nat := p.instructions.size

/-- The index at which a run starts. -/
def first (p : Program) : Except Fault Int :=
  if p.instructions.isEmpty then .error .emptyProgram else .ok 0

def at? (p : Program) (index : Option Int) : Option Instruction := do
  let i ← index
  if i < 0 then none else p.instructions[i.toNat]?

def fetch (p : Program) (index : Option Int) : Except Failure Instruction :=
  match p.at? index with
  | some i => .ok i
  | none => .error (.ofFault (.outOfProgram index))

/-- The index of the following instruction. -/
def next (p : Program) (index : Int) : Option Int :=
  if index + 1 < p.size then some (index + 1) else none

/-- The index of a label, which may be given in letters of any case. -/
def target (p : Program) (label : String) : Except Fault Int :=
  match p.labels.lookup (Text.lower label) with
  | some i => .ok i
  | none => .error (.unknownLabel label)

/-! ## Listing -/

def padLeft (width : Nat) (s : String) : String :=
  String.ofList (List.replicate (width - s.length) ' ') ++ s

def padRight (width : Nat) (s : String) : String :=
  s ++ String.ofList (List.replicate (width - s.length) ' ')

/-- One line of a listing: the index, the label and the command in columns. -/
def row (index : Nat) (i : Instruction) : String :=
  let label := match i.mark with
    | none => ""
    | some l => l ++ ":"
  padLeft 4 (toString index) ++ " " ++ padRight 10 label ++ " " ++ i.body

def rows (p : Program) : List String :=
  p.instructions.toList.zipIdx.map fun (i, k) => row k i

/-- The program in columns. -/
def listing (p : Program) : Except DigitLimitError String :=
  if p.instructions.all (·.writable) then .ok ("\n".intercalate p.rows) else .error .writing

end Program
end RandomAccess

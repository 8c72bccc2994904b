import RandomAccess.Program
import RandomAccess.Source.Statement
import RandomAccess.Text.Blank

/-! Programs from source lines and from records. -/
namespace RandomAccess

/-- Why a program was refused. -/
inductive LoadError where
  | malformed (line : Nat) (text : String) (place : Source.Mismatch)
  | digitLimit (cause : DigitLimitError)
  /-- A label alone on a line, and no instruction since the label before it. -/
  | labelWaiting (line : Nat) (waiting : String)
  | twoLabels (line : Nat) (waiting own : String)
  | danglingLabel (label : String)
  | undefinedTag (tag : String)
  | duplicateLabel (label : String)
  | outOfOrder (index : Int)
  | missingOperand (index : Nat) (opcode : Opcode)
deriving DecidableEq, Repr

def LoadError.message : LoadError → String
  | malformed n t place =>
    "Invalid command on line " ++ toString n ++ ": " ++ t ++ ". Parser message: " ++ place.message
  | digitLimit e => e.message
  | labelWaiting n l =>
    "Line " ++ toString n ++ ": tag '" ++ l ++ "' already marks the next instruction"
  | twoLabels n l own =>
    "Line " ++ toString n ++ ": instruction has two tags '" ++ l ++ "' and '" ++ own ++ "'"
  | danglingLabel l => "Tag '" ++ l ++ "' doesn't mark any instruction"
  | undefinedTag t => "Parse failed. Tag '" ++ t ++ "' wasn't found"
  | duplicateLabel l => "Duplicate tag '" ++ l ++ "'"
  | outOfOrder i => "Instruction index " ++ Numeral.text i ++ " is out of order"
  | missingOperand i op =>
    "Instruction " ++ toString i ++ ": " ++ op.mnemonic ++ " needs an operand"

namespace Program

/-- Adds an instruction at the end. -/
def push (p : Program) (i : Instruction) : Except LoadError Program :=
  if i.opcode ≠ .halt ∧ i.operand = none then .error (.missingOperand p.size i.opcode)
  else match i.mark with
    | none => .ok { p with instructions := p.instructions.push i }
    | some l =>
      let l := Text.lower l
      if (p.labels.lookup l).isSome then .error (.duplicateLabel l)
      else .ok ⟨p.instructions.push i, p.labels ++ [(l, p.size)]⟩

/-! ## Records -/

/-- A program from instructions with their indices. Tags are not looked up. -/
def ofRecords (records : List (Int × Instruction)) : Except LoadError Program :=
  records.foldlM (fun p (index, i) =>
    if index ≠ p.size then
      .error (if Numeral.writable index then .outOfOrder index else .digitLimit .writing)
    else p.push i) {}

/-! ## Source -/

/-- A program in the course of loading, with the label that waits for its instruction. -/
structure Draft where
  program : Program := {}
  waiting : Option String := none
deriving DecidableEq, Repr

/-- Adds an instruction, which takes the label that waits. -/
def Draft.instruction (d : Draft) (line : Nat) (i : Instruction) : Except LoadError Draft :=
  match d.waiting, i.label with
  | some l, some own => .error (.twoLabels line l own)
  | some l, none => do return { program := ← d.program.push { i with label := some l } }
  | none, _ => do return { program := ← d.program.push i }

def Draft.label (d : Draft) (line : Nat) (l : String) : Except LoadError Draft :=
  match d.waiting with
  | some waiting => .error (.labelWaiting line waiting)
  | none => .ok { d with waiting := some l }

/-- Adds the line with the number `line`. -/
def Draft.line (d : Draft) (line : Nat) (s : List Char) : Except LoadError Draft :=
  match Text.trim s with
  | [] => .ok d
  | s =>
    match Source.Statement.read s with
    | .error (.digitLimit e) => .error (.digitLimit e)
    | .error (.mismatch place) => .error (.malformed line (String.ofList s) place)
    | .ok .nothing => .ok d
    | .ok (.label l) => d.label line l
    | .ok (.instruction i) => d.instruction line i

/-- The first tag that no instruction has as its label. -/
def undefinedTag? (p : Program) : Option String :=
  p.instructions.toList.findSome? fun i =>
    match i.operand with
    | some (.tag t) => if (p.labels.lookup t).isSome then none else some t
    | _ => none

/-- Ends the loading. -/
def Draft.finish (d : Draft) : Except LoadError Program :=
  match d.waiting with
  | some l => .error (.danglingLabel l)
  | none =>
    match d.program.undefinedTag? with
    | some t => .error (.undefinedTag t)
    | none => .ok d.program

/-- A program from its source lines. -/
def ofLines (lines : List (List Char)) : Except LoadError Program := do
  let d ← (lines.zipIdx 1).foldlM (fun d (s, n) => Draft.line d n s) {}
  d.finish

def ofSource (source : String) : Except LoadError Program := ofLines (Text.lines source.toList)

end Program
end RandomAccess

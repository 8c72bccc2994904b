import RandomAccess.Numeral

/-! The instructions of the machine and their source form. -/
namespace RandomAccess

inductive Opcode where
  | load | store | add | sub | mul | div | read | write | jump | jzero | jgtz | halt
deriving DecidableEq, Repr

namespace Opcode

def all : List Opcode :=
  [load, store, add, sub, mul, div, read, write, jump, jzero, jgtz, halt]

/-- The keyword of an operation, in capitals. -/
def mnemonic : Opcode → String
  | load => "LOAD"
  | store => "STORE"
  | add => "ADD"
  | sub => "SUB"
  | mul => "MUL"
  | div => "DIV"
  | read => "READ"
  | write => "WRITE"
  | jump => "JUMP"
  | jzero => "JZERO"
  | jgtz => "JGTZ"
  | halt => "HALT"

/-- The keyword of an operation at the start of a sentence. -/
def title : Opcode → String
  | load => "Load"
  | store => "Store"
  | add => "Add"
  | sub => "Sub"
  | mul => "Mul"
  | div => "Div"
  | read => "Read"
  | write => "Write"
  | jump => "Jump"
  | jzero => "Jzero"
  | jgtz => "Jgtz"
  | halt => "Halt"

end Opcode

/-- How an operand names its value. -/
inductive Addressing where
  | constant | direct | indirect | tag
deriving DecidableEq, Repr

def Addressing.name : Addressing → String
  | .constant => "CONSTANT"
  | .direct => "DIRECT"
  | .indirect => "INDIRECT"
  | .tag => "TAG"

inductive Operand where
  /-- The number itself, written `=n`. -/
  | constant (value : Int)
  /-- The contents of a register, written `n`. -/
  | direct (index : Int)
  /-- The contents of the register whose index a register holds, written `*n`. -/
  | indirect (index : Int)
  /-- A labelled instruction. -/
  | tag (label : String)
deriving DecidableEq, Repr

namespace Operand

def addressing : Operand → Addressing
  | constant _ => .constant
  | direct _ => .direct
  | indirect _ => .indirect
  | tag _ => .tag

def text : Operand → String
  | constant n => "=" ++ Numeral.text n
  | direct n => Numeral.text n
  | indirect n => "*" ++ Numeral.text n
  | tag t => t

/-- The number in the operand, if there is one, has a numeral. -/
def writable : Operand → Bool
  | constant n | direct n | indirect n => Numeral.writable n
  | tag _ => true

end Operand

/-- An instruction; only `halt` does without an operand. -/
structure Instruction where
  opcode : Opcode
  operand : Option Operand := none
  label : Option String := none
deriving DecidableEq, Repr

namespace Instruction

/-- The label of an instruction; an empty one counts as none. -/
def mark (i : Instruction) : Option String := i.label.filter (· ≠ "")

def argument (i : Instruction) : String :=
  match i.operand with
  | none => ""
  | some o => o.text

/-- The instruction without its label. -/
def body (i : Instruction) : String :=
  if i.argument = "" then i.opcode.mnemonic else i.opcode.mnemonic ++ " " ++ i.argument

/-- The instruction as a source line. -/
def text (i : Instruction) : String :=
  match i.mark with
  | none => i.body
  | some l => l ++ ": " ++ i.body

/-- The instruction can be written as text. -/
def writable (i : Instruction) : Bool := i.operand.all (·.writable)

end Instruction
end RandomAccess

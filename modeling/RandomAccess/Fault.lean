import RandomAccess.Instruction

/-! What ends a run early, and what keeps an instruction from completing. -/
namespace RandomAccess

/-- A cause that ends a run. -/
inductive Fault where
  | emptyProgram
  | outOfProgram (index : Option Int)
  | unknownLabel (label : String)
  | illegalAddressing (opcode : Opcode) (mode : Addressing)
  /-- A value was to be read into the accumulator. -/
  | accumulatorInput
  /-- The accumulator was to be written to the output tape. -/
  | accumulatorOutput
  | invalidIndex (index : Int)
  | divisionByZero
  | inputExhausted (count : Nat)
  | outputRefused (reason : String)
  | limitReached
deriving DecidableEq, Repr

namespace Fault

def message : Fault → String
  | emptyProgram => "Program has no instructions"
  | outOfProgram none => "No instruction at index None"
  | outOfProgram (some i) => "No instruction at index " ++ Numeral.text i
  | unknownLabel l => "Tag '" ++ l ++ "' wasn't found"
  | illegalAddressing op mode => op.title ++ " can't have " ++ mode.name ++ " addressing"
  | accumulatorInput => "The read value can't be assigned to the ACC"
  | accumulatorOutput => "The ACC value can't be written to the output tape"
  | invalidIndex i => "Register index can't be negative: " ++ Numeral.text i
  | divisionByZero => "Division by zero"
  | inputExhausted n => "Input tape is exhausted after " ++ toString n ++ " values"
  | outputRefused reason => "Output tape write failed: " ++ reason
  | limitReached => "Max iteration limit has reached. Maybe, machine execution is infinite"

/-- The number that the message quotes, if there is one, has a numeral. -/
def writable : Fault → Bool
  | outOfProgram (some i) | invalidIndex i => Numeral.writable i
  | _ => true

end Fault

/-- Why an instruction did not complete. Only a fault ends the run. -/
inductive Failure where
  | fault (cause : Fault)
  | digitLimit (cause : DigitLimitError)
  | closedSink
deriving DecidableEq, Repr

namespace Failure

/-- A fault whose message cannot be written fails for that reason instead. -/
def ofFault (f : Fault) : Failure :=
  if f.writable then .fault f else .digitLimit .writing

def message : Failure → String
  | fault f => f.message
  | digitLimit e => e.message
  | closedSink => "I/O operation on closed file."

end Failure
end RandomAccess

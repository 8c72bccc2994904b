import RandomAccess.Program
import RandomAccess.Registers
import RandomAccess.Tape.Input
import RandomAccess.Tape.Output

/-! The state of a machine: a program, registers, two tapes, the instruction pointer and the
statistics of the run. -/
namespace RandomAccess

/-- How a run ended. -/
inductive Result where
  | halted (steps : Nat)
  | faulted (index : Option Int) (cause : Fault) (steps : Nat)
deriving DecidableEq, Repr

namespace Result

def isFault : Result → Bool
  | halted _ => false
  | faulted .. => true

def indexText : Option Int → String
  | none => "None"
  | some i => Numeral.text i

/-- The report of a fault; a run that halted has nothing to report. -/
def text : Result → String
  | halted _ => ""
  | faulted index cause _ => "ERROR in line " ++ indexText index ++ ": " ++ cause.message

end Result

/-- Statistics since the last reset. -/
structure Trace where
  /-- How often each instruction completed, in the order of first completion. -/
  counts : List (String × Nat) := []
  executed : Nat := 0
  /-- The first registers when the machine was first executed. -/
  initial : Option (List Int) := none
  /-- The first registers after the last execution. -/
  final : Option (List Int) := none
  /-- The number of registers used after the last execution. -/
  used : Option Nat := none
deriving DecidableEq, Repr

/-- Counts one more of `key`; a new key comes last. -/
def Trace.bump (key : String) : List (String × Nat) → List (String × Nat)
  | [] => [(key, 1)]
  | (k, n) :: r => if k = key then (k, n + 1) :: r else (k, n) :: bump key r

structure Machine where
  program : Program
  registers : Registers := {}
  input : InputTape := {}
  output : OutputTape := {}
  /-- The instruction that comes next. -/
  ip : Option Int := none
  steps : Nat := 0
  result : Option Result := none
  trace : Trace := {}
deriving DecidableEq, Repr

namespace Machine

def finished (m : Machine) : Bool := m.result.isSome

/-- Ends the run at the current instruction. -/
def fault (m : Machine) (f : Fault) : Machine :=
  { m with result := some (.faulted m.ip f m.steps) }

/-- Back to the first instruction with empty registers. The tapes stay as they are. -/
def reset (m : Machine) : Machine :=
  let m := { m with registers := {}, ip := none, steps := 0, result := none, trace := {} }
  match m.program.first with
  | .ok i => { m with ip := some i }
  | .error f => m.fault f

def new (program : Program) (input : InputTape := {}) (output : OutputTape := {}) : Machine :=
  reset { program, input, output }

/-- Gives the machine another program. -/
def install (m : Machine) (program : Program) : Machine := reset { m with program }

end Machine

/-- What a machine may be offered as its program: a program, or a value of some other kind. -/
inductive Offer where
  | program (p : Program)
  | other (kind : String)
deriving DecidableEq, Repr

/-- A machine was offered something that is no program. -/
structure NotAProgram where
  kind : String
deriving DecidableEq, Repr

def NotAProgram.message (e : NotAProgram) : String := "RAMProgram required, not " ++ e.kind

/-- Gives the machine the program that it is offered; what is no program is refused. -/
def Machine.accept (m : Machine) : Offer → Machine × Option NotAProgram
  | .program p => (m.install p, none)
  | .other kind => (m, some ⟨kind⟩)

end RandomAccess

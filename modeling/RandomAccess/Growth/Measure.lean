import RandomAccess.Machine.Execute
import RandomAccess.Text.Quoted

/-! Measurements: a program is run on tapes of different lengths, and one figure of each run's
statistics is kept. -/
namespace RandomAccess

/-- A figure of the statistics. -/
inductive Criterion where
  | executed | counts | initial | final | used
deriving DecidableEq, Repr

namespace Criterion

def ofName? : String → Option Criterion
  | "commands_executed" => some executed
  | "command_exec_count" => some counts
  | "initial_reg" => some initial
  | "final_reg" => some final
  | "used_registers" => some used
  | _ => none

end Criterion

/-- The value of a figure. -/
inductive Figure where
  | number (n : Nat)
  | registers (vs : List Int)
  | counts (cs : List (String × Nat))
deriving DecidableEq, Repr

def Trace.figure? (t : Trace) : Criterion → Option Figure
  | .executed => some (.number t.executed)
  | .counts => some (.counts t.counts)
  | .initial => t.initial.map .registers
  | .final => t.final.map .registers
  | .used => t.used.map .number

/-- Why a measurement failed. -/
inductive MeasureError where
  /-- A run ended with a fault. -/
  | faulted (result : Result)
  | unknownCriterion (name : String)
  | failed (cause : Failure)
  | outOfFuel
deriving DecidableEq, Repr

def MeasureError.message : MeasureError → String
  | faulted r => r.text
  | unknownCriterion name => String.ofList (Text.quoted name.toList)
  | failed e => e.message
  | outOfFuel => ""

namespace Program

/-- The statistics of the run on one tape, which has to halt. -/
def statistics (p : Program) (fuel : Nat) (o : RunOptions) (tape : List Int) :
    Except MeasureError Trace :=
  let e := (Machine.new p (.ofList tape)).execute fuel o
  match e.stop, e.machine.result with
  | .failed cause, _ => .error (.failed cause)
  | .outOfFuel, _ | .finished, none => .error .outOfFuel
  | .finished, some r => if r.isFault then .error (.faulted r) else .ok e.machine.trace

/-- A figure of the run on one tape. The name of the figure matters only if the run halts. -/
def figure (p : Program) (fuel : Nat) (o : RunOptions) (criterion : String) (tape : List Int) :
    Except MeasureError Figure := do
  let t ← p.statistics fuel o tape
  match (Criterion.ofName? criterion).bind t.figure? with
  | some f => return f
  | none => throw (.unknownCriterion criterion)

/-- The length of every tape with the figure of its run. -/
def measure (p : Program) (fuel : Nat) (o : RunOptions) (criterion : String)
    (tapes : List (List Int)) : Except MeasureError (List (Nat × Figure)) :=
  tapes.mapM fun t => do return (t.length, ← p.figure fuel o criterion t)

/-- The length of every tape with the steps of its run. -/
def stepCounts (p : Program) (fuel : Nat) (o : RunOptions) (tapes : List (List Int)) :
    Except MeasureError (List (Nat × Nat)) :=
  tapes.mapM fun t => do return (t.length, (← p.statistics fuel o t).executed)

end Program
end RandomAccess

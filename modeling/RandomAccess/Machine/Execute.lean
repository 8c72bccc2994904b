import RandomAccess.Machine.Step

/-! Whole runs: steps until the run ends or a limit is reached, with or without a printed trace. A
run without a limit may go on forever, so the number of steps tried is bounded by fuel. -/
namespace RandomAccess

structure RunOptions where
  /-- The number of steps after which a run is ended with a fault. -/
  limit : Option Int := none
  /-- Print every step. -/
  debug : Bool := false
  /-- How many registers are shown. -/
  window : Int := 10
deriving DecidableEq, Repr

/-- Why an execution came to its end. -/
inductive Stop where
  | finished
  | failed (cause : Failure)
  | outOfFuel
deriving DecidableEq, Repr

structure Execution where
  machine : Machine
  /-- The text printed on the way. -/
  printed : String
  stop : Stop
deriving DecidableEq, Repr

namespace Machine

/-- The line printed before a step. -/
def announcement (m : Machine) : Except Failure String := do
  let i ← m.program.fetch m.ip
  if i.writable then
    return "IP: " ++ Result.indexText m.ip ++ " Instruction: " ++ i.text ++ "\n"
  else throw (.digitLimit .writing)

/-- The line printed after a step. -/
def display (m : Machine) (window : Int) : Except Failure String :=
  let vs := m.registers.window window
  if vs.all Numeral.writable then
    .ok (" | ".intercalate (vs.zipIdx.map fun (v, i) => "R" ++ toString i ++ ": " ++ Numeral.text v)
      ++ "\n")
  else .error (.digitLimit .writing)

/-- The limit has been reached. -/
def exhausted (m : Machine) (o : RunOptions) : Bool := o.limit.any fun n => n ≤ (m.steps : Int)

/-- A step with the text printed before and after it. -/
def tracedStep (m : Machine) (o : RunOptions) : Machine × String × Option Failure :=
  if o.debug then
    match m.announcement with
    | .error e => (m, "", some e)
    | .ok before =>
      match m.step with
      | (m, some e) => (m, before, some e)
      | (m, none) =>
        match m.display o.window with
        | .error e => (m, before, some e)
        | .ok after => (m, before ++ after, none)
  else
    let (m, e) := m.step
    (m, "", e)

/-- Steps until the run ends; `printed` is the text so far. -/
def loop (o : RunOptions) : Nat → Machine → String → Execution
  | fuel, m, printed =>
    if m.finished then ⟨m, printed, .finished⟩
    else if m.exhausted o then ⟨m.fault .limitReached, printed, .finished⟩
    else match fuel with
      | 0 => ⟨m, printed, .outOfFuel⟩
      | fuel + 1 =>
        match m.tracedStep o with
        | (m, t, some e) => ⟨m, printed ++ t, .failed e⟩
        | (m, t, none) => loop o fuel m (printed ++ t)

/-- Notes the first registers, unless an execution since the last reset did. -/
def openTrace (m : Machine) (window : Int) : Machine :=
  { m with trace := { m.trace with
      initial := some (m.trace.initial.getD (m.registers.window window)) } }

def closeTrace (m : Machine) (window : Int) : Machine :=
  { m with trace := { m.trace with
      final := some (m.registers.window window)
      used := some m.registers.used } }

/-- The last line of a printed trace, which only a fault has. -/
def epilogue (m : Machine) (o : RunOptions) : String :=
  match m.result with
  | some r => if o.debug && r.isFault then r.text ++ "\n" else ""
  | none => ""

/-- Executes a machine with at most `fuel` steps. -/
def execute (m : Machine) (fuel : Nat) (o : RunOptions := {}) : Execution :=
  let e := loop o fuel (m.openTrace o.window) ""
  match e.stop with
  | .finished =>
    { e with
      machine := e.machine.closeTrace o.window
      printed := e.printed ++ e.machine.epilogue o }
  | _ => e

/-- More steps than a run that ends will take. -/
def ampleFuel : Nat := pow2 62

end Machine
end RandomAccess

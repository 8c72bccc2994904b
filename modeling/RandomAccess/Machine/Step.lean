import RandomAccess.Machine.Basic

/-! One step of a machine. The effect of an instruction is worked out first, which changes nothing;
then the effect is carried out, and at last the instruction is counted. -/
namespace RandomAccess

namespace Operand

/-- The index that a register operand names. -/
def register (o : Operand) (r : Registers) (op : Opcode) : Except Failure Int :=
  match o with
  | direct i => .ok i
  | indirect i => r.get i
  | _ => .error (.fault (.illegalAddressing op o.addressing))

/-- The value of an operand. -/
def value (o : Operand) (r : Registers) (op : Opcode) : Except Failure Int :=
  match o with
  | constant v => .ok v
  | _ => do r.get (← o.register r op)

/-- The label that a jump names. -/
def label (o : Operand) (op : Opcode) : Except Failure String :=
  match o with
  | tag l => .ok l
  | _ => .error (.fault (.illegalAddressing op o.addressing))

end Operand

/-- What an instruction does to the machine. -/
inductive Effect where
  /-- Sets a register. -/
  | assign (i : Nat) (v : Int)
  /-- Sets a register to the value under the input head, and moves the head. -/
  | input (i : Nat) (v : Int)
  /-- Writes a value to the output tape. -/
  | output (v : Int)
  /-- Sets the instruction pointer. -/
  | goto (target : Option Int)
deriving DecidableEq, Repr

namespace Machine

/-- Replaces the accumulator by the result of an operation on it. -/
def arithmetic (m : Machine) (arith : Registers.Arithmetic) (v : Int) : Except Failure Effect := do
  arith.check v
  return .assign 0 (arith.apply m.registers.acc v)

def target (m : Machine) (label : String) : Except Failure Effect :=
  match m.program.target label with
  | .ok i => .ok (.goto (some i))
  | .error f => .error (.fault f)

/-- The effect of the instruction at `index`, or the failure it meets. Only `halt` comes without an
operand. -/
def effect (m : Machine) (index : Int) (i : Instruction) : Except Failure Effect :=
  match i.opcode, i.operand with
  | .halt, _ | _, none => .ok (.goto none)
  | .load, some o => do m.arithmetic .assign (← o.value m.registers .load)
  | .add, some o => do m.arithmetic .add (← o.value m.registers .add)
  | .sub, some o => do m.arithmetic .sub (← o.value m.registers .sub)
  | .mul, some o => do m.arithmetic .mul (← o.value m.registers .mul)
  | .div, some o => do m.arithmetic .div (← o.value m.registers .div)
  | .store, some o => do
    let k ← Registers.index (← o.register m.registers .store)
    return .assign k m.registers.acc
  | .read, some o => do
    let i ← o.register m.registers .read
    if i = 0 then throw (.fault .accumulatorInput)
    let k ← Registers.index i
    match m.input.peek with
    | .ok v => return .input k v
    | .error f => throw (.fault f)
  | .write, some (.constant v) => .ok (.output v)
  | .write, some o => do
    let i ← o.register m.registers .write
    if i = 0 then throw (.fault .accumulatorOutput)
    return .output (← m.registers.get i)
  | .jump, some o => do m.target (← o.label .jump)
  | .jzero, some o => do
    let l ← o.label .jzero
    if m.registers.acc = 0 then m.target l else return .goto (m.program.next index)
  | .jgtz, some o => do
    let l ← o.label .jgtz
    if m.registers.acc > 0 then m.target l else return .goto (m.program.next index)

/-- Carries out an effect. Only writing to the output tape can fail. -/
def perform (m : Machine) : Effect → Machine × Option Failure
  | .assign i v => ({ m with registers := m.registers.put i v }, none)
  | .input i v => ({ m with registers := m.registers.put i v, input := m.input.advance }, none)
  | .output v =>
    let (output, failure) := m.output.write v
    ({ m with output }, failure)
  | .goto target => ({ m with ip := target }, none)

/-- The key under which an instruction is counted. -/
def key (index : Int) (i : Instruction) : String := Numeral.text index ++ " " ++ i.body

/-- Counts the instruction at `index`. -/
def record (m : Machine) (index : Int) (i : Instruction) : Machine :=
  { m with trace := { m.trace with
      counts := Trace.bump (key index i) m.trace.counts
      executed := m.steps } }

/-- Moves on after the instruction at `index`; without a next instruction the run is over. -/
def proceed (m : Machine) (index : Int) (e : Effect) : Machine :=
  let ip := match e with
    | .goto target => target
    | _ => m.program.next index
  match ip with
  | some i => { m with ip := some i }
  | none => { m with ip := none, result := some (.halted m.steps) }

/-- Completes the instruction at `index` once its effect is carried out. An instruction that cannot
be written as text is not counted. -/
def complete (m : Machine) (index : Int) (i : Instruction) (e : Effect) :
    Machine × Option Failure :=
  let m := { m with steps := m.steps + 1 }
  if i.writable then ((m.record index i).proceed index e, none)
  else (m, some (.digitLimit .writing))

/-- The next instruction with its index and its effect. -/
def plan (m : Machine) : Except Failure (Int × Instruction × Effect) :=
  match m.ip with
  | none => .error (.fault (.outOfProgram none))
  | some index => do
    let i ← m.program.fetch (some index)
    return (index, i, ← m.effect index i)

/-- A fault ends the run; any other failure leaves it and is reported. -/
def fail (m : Machine) : Failure → Machine × Option Failure
  | .fault f => (m.fault f, none)
  | e => (m, some e)

/-- Executes one instruction of a run that has not ended. -/
def step (m : Machine) : Machine × Option Failure :=
  if m.finished then (m, none)
  else match m.plan with
    | .error e => m.fail e
    | .ok (index, i, e) =>
      match m.perform e with
      | (m, some e) => m.fail e
      | (m, none) => m.complete index i e

end Machine
end RandomAccess

import RandomAccess.Fault

/-! The output tape: a list of integers that only grows, and perhaps a sink that receives them as
lines of text. -/
namespace RandomAccess

/-- Where the text of an output tape goes. -/
structure Sink where
  content : String := ""
  /-- How many more lines are accepted; `none` is no bound. -/
  capacity : Option Nat := none
  /-- What is reported when a line is not accepted. -/
  reason : String := "disk full"
  /-- The tape opened the sink itself, and closes it. -/
  owned : Bool := false
  closed : Bool := false
deriving DecidableEq, Repr

/-- Why a sink did not take a line. -/
inductive SinkError where
  | closed
  | full
deriving DecidableEq, Repr

def Sink.write (s : Sink) (line : String) : Except SinkError Sink :=
  if s.closed then .error .closed
  else match s.capacity with
    | none => .ok { s with content := s.content ++ line }
    | some 0 => .error .full
    | some (n + 1) => .ok { s with content := s.content ++ line, capacity := some n }

structure OutputTape where
  values : Array Int := #[]
  sink : Option Sink := none
deriving DecidableEq, Repr

namespace OutputTape

/-- The line of a value in the sink. -/
def line (v : Int) : String := Numeral.text v ++ "\n"

/-- Writes a value. It is on the tape even if the sink fails. -/
def write (t : OutputTape) (v : Int) : OutputTape × Option Failure :=
  let t := { t with values := t.values.push v }
  match t.sink with
  | none => (t, none)
  | some s =>
    if !Numeral.writable v then (t, some (.digitLimit .writing))
    else match s.write (line v) with
      | .ok s => ({ t with sink := some s }, none)
      | .error .closed => (t, some .closedSink)
      | .error .full => (t, some (.fault (.outputRefused s.reason)))

/-- Writes values up to the first failure. -/
def writeAll (t : OutputTape) : List Int → OutputTape × Option Failure
  | [] => (t, none)
  | v :: vs =>
    match t.write v with
    | (t, none) => t.writeAll vs
    | (t, some e) => (t, some e)

/-- Closes the sink if the tape opened it. -/
def close (t : OutputTape) : OutputTape :=
  { t with sink := t.sink.map fun s => if s.owned then { s with closed := true } else s }

end OutputTape
end RandomAccess

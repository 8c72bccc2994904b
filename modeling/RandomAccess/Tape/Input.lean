import RandomAccess.Fault
import RandomAccess.Text.Blank

/-! The input tape: integers, read one after the other. -/
namespace RandomAccess

structure InputTape where
  values : Array Int := #[]
  /-- How many values have been read. -/
  position : Nat := 0
deriving DecidableEq, Repr

namespace InputTape

def ofList (vs : List Int) : InputTape := { values := vs.toArray }

def remaining (t : InputTape) : Nat := t.values.size - t.position

/-- The values that have not been read. -/
def unread (t : InputTape) : List Int := t.values.toList.drop t.position

/-- The value under the head. -/
def peek (t : InputTape) : Except Fault Int :=
  match t.values[t.position]? with
  | some v => .ok v
  | none => .error (.inputExhausted t.values.size)

def advance (t : InputTape) : InputTape := { t with position := t.position + 1 }

def read (t : InputTape) : Except Fault (Int × InputTape) := do
  return (← t.peek, t.advance)

def rewind (t : InputTape) : InputTape := { t with position := 0 }

/-! ## Text -/

/-- A word that is not a numeral. -/
structure InvalidValue where
  word : String
deriving DecidableEq, Repr

def InvalidValue.message (e : InvalidValue) : String := "Invalid input tape value: " ++ e.word

/-- A tape from numerals with blanks between them. -/
def ofText (s : List Char) : Except InvalidValue InputTape := do
  let vs ← (Text.words s).mapM fun w =>
    match Numeral.read? w with
    | some v => .ok v
    | none => .error ⟨String.ofList w⟩
  return ofList vs

end InputTape
end RandomAccess

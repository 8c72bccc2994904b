import RandomAccess.Source.Token
import RandomAccess.Text.Letter
import RandomAccess.Text.Quoted
import RandomAccess.Text.Tabs

/-! What a source line says. A line holds at most one statement and at most one comment, in this
order; where several readings are possible the first of these wins: a label with an instruction, an
instruction, a label alone, nothing. -/
namespace RandomAccess.Source

inductive Statement where
  | nothing
  | label (name : String)
  | instruction (i : Instruction)
deriving DecidableEq, Repr

/-- An instruction without a label. The operand of `halt` is read and forgotten. -/
def command (s : List Char) : Reading Instruction :=
  match opcode? s with
  | none => .absent
  | some (op, r) =>
    match operand r with
    | .token o r' => .token { opcode := op, operand := if op = .halt then none else some o } r'
    | .absent => if op = .halt then .token { opcode := op } r else .absent
    | .tooLong e => .tooLong e

/-- The statement at the start of a line, with the rest of the line. -/
def statement (s : List Char) : Except DigitLimitError (Statement × List Char) :=
  match label? s with
  | some (l, r) =>
    match command r with
    | .token i r' => .ok (.instruction { i with label := some l }, r')
    | .absent => .ok (.label l, r)
    | .tooLong e => .error e
  | none =>
    match command s with
    | .token i r' => .ok (.instruction i, r')
    | .absent => .ok (.nothing, s)
    | .tooLong e => .error e

/-- Drops a comment, which ends before the next line feed. -/
def dropComment (s : List Char) : List Char :=
  match skip s with
  | c :: r => if c = '#' ∨ c = ';' then r.dropWhile (· ≠ '\n') else c :: r
  | [] => []

/-! ## Lines that are not statements -/

/-- A line on which something is left over. -/
structure Mismatch where
  text : List Char
  /-- The characters of `text` that are left over. -/
  rest : List Char
deriving DecidableEq, Repr

namespace Mismatch

/-- The offset of the first character that is left over. -/
def offset (m : Mismatch) : Nat := m.text.length - m.rest.length

def lineNumber (m : Mismatch) : Nat := (m.text.take m.offset).count '\n' + 1

def column (m : Mismatch) : Nat :=
  ((m.text.take m.offset).reverse.takeWhile (· ≠ '\n')).length + 1

/-- What stands at the offset: up to 16 letters and digits, or one character of another kind. A
backslash is shown single. -/
def found (m : Mismatch) : List Char :=
  match (m.rest.takeWhile Text.isWordCharacter).take 16 with
  | [] =>
    if m.rest.head? = some '\\' then ['\x27', '\\', '\x27'] else Text.quoted (m.rest.take 1)
  | run => Text.quoted run

def message (m : Mismatch) : String :=
  "Expected end of text, found " ++ String.ofList m.found ++ "  (at char " ++ toString m.offset ++
    "), (line:" ++ toString m.lineNumber ++ ", col:" ++ toString m.column ++ ")"

end Mismatch

inductive LineError where
  | digitLimit (cause : DigitLimitError)
  | mismatch (place : Mismatch)
deriving DecidableEq, Repr

/-- Reads a line that is already trimmed. -/
def Statement.read (line : List Char) : Except LineError Statement :=
  let text := Text.expandTabs line
  match statement text with
  | .error e => .error (.digitLimit e)
  | .ok (st, r) =>
    match skip (dropComment r) with
    | [] => .ok st
    | rest => .error (.mismatch ⟨text, rest⟩)

end RandomAccess.Source

import RandomAccess.Numeral
import RandomAccess.Text.Quoted

/-! The words of a command line: which of them are switches. -/
namespace RandomAccess.CommandLine

inductive Switch where
  | help | input | output | maxIterations | notrace | debug
deriving DecidableEq, Repr

namespace Switch

def all : List Switch := [help, input, output, maxIterations, notrace, debug]

/-- The spellings of a switch, the short one first. -/
def spellings : Switch → List String
  | help => ["-h", "--help"]
  | input => ["-i", "--input"]
  | output => ["-o", "--output"]
  | maxIterations => ["--max-iterations"]
  | notrace => ["--notrace"]
  | debug => ["-d", "--debug"]

/-- A value follows the switch. -/
def takesValue : Switch → Bool
  | input | output | maxIterations => true
  | help | notrace | debug => false

/-- Every spelling with its switch. -/
def table : List (String × Switch) := all.flatMap fun s => s.spellings.map (·, s)

/-- The name of a switch in messages. -/
def title (s : Switch) : String := "/".intercalate s.spellings

end Switch

/-- Why a command line was refused. -/
inductive UsageError where
  | ambiguous (word : String) (spellings : List String)
  /-- A value is attached to a switch that takes none. -/
  | ignoredValue (switch : Switch) (value : String)
  | missingValue (switch : Switch)
  | invalidInteger (switch : Switch) (value : String)
  | missing (names : List String)
  | unrecognized (words : List String)
  | unknownAction (action : String)
  /-- Help was asked for, and nothing else is done. -/
  | help
deriving DecidableEq, Repr

namespace UsageError

def about (s : Switch) (message : String) : String := "argument " ++ s.title ++ ": " ++ message

def quote (s : String) : String := String.ofList (Text.quoted s.toList)

def message : UsageError → String
  | ambiguous w ss => "ambiguous option: " ++ w ++ " could match " ++ ", ".intercalate ss
  | ignoredValue s v => about s ("ignored explicit argument " ++ quote v)
  | missingValue s => about s "expected one argument"
  | invalidInteger s v => about s ("invalid int value: " ++ quote v)
  | missing names => "the following arguments are required: " ++ ", ".intercalate names
  | unrecognized ws => "unrecognized arguments: " ++ " ".intercalate ws
  | unknownAction a => "Unknown action: " ++ a
  | help => ""

end UsageError

/-- A value in the same word as its switch. -/
structure Attached where
  /-- An equals sign stands before the value. -/
  equals : Bool
  value : List Char
deriving DecidableEq, Repr

inductive Word where
  | plain (text : String)
  /-- The first `--`; every word after it is plain. -/
  | separator
  /-- A switch; its spelling is short if one dash starts it. -/
  | switch (s : Switch) (short : Bool) (attached : Option Attached)
  /-- A word that looks like a switch but is none. -/
  | unknown (text : String)
deriving DecidableEq, Repr

namespace Word

def text : Word → String
  | plain t | unknown t => t
  | separator => "--"
  | switch .. => ""

def isSwitch : Word → Bool
  | switch .. | unknown _ => true
  | plain _ | separator => false

def isPlain : Word → Bool
  | plain _ => true
  | _ => false

/-- A minus sign and a decimal number; a line feed may follow. -/
def isNegativeNumber (w : List Char) : Bool :=
  match w with
  | '-' :: r =>
    let r := if r.getLast? = some '\n' then r.dropLast else r
    match r.dropWhile Text.isDecimalDigit with
    | [] => !r.isEmpty
    | '.' :: f => !f.isEmpty && f.all Text.isDecimalDigit
    | _ => false
  | _ => false

/-- The part before the first equals sign, and the part after it. -/
def splitEquals (w : List Char) : List Char × Option (List Char) :=
  match w.dropWhile (· ≠ '=') with
  | [] => (w, none)
  | _ :: v => (w.takeWhile (· ≠ '='), some v)

/-- The switches that a word may stand for. A long spelling may be cut short, and a value may
follow a short one directly. -/
def readings (w : List Char) : List (String × Word) :=
  if w.take 2 = ['-', '-'] then
    let (name, value) := splitEquals w
    (Switch.table.filter fun e => name.isPrefixOf e.1.toList).map fun e =>
      (e.1, switch e.2 false (value.map (⟨true, ·⟩)))
  else
    (Switch.table.filter fun e => e.1.toList = w.take 2).map fun e =>
      (e.1, switch e.2 true (some ⟨false, w.drop 2⟩))

def isShort (spelling : List Char) : Bool := spelling[1]? ≠ some '-'

/-- The kind of a word before the separator. -/
def classify (text : String) : Except UsageError Word :=
  let w := text.toList
  if w.head? ≠ some '-' then .ok (plain text)
  else match Switch.table.lookup text with
    | some s => .ok (switch s (isShort w) none)
    | none =>
      if w.length = 1 then .ok (plain text)
      else
        let (name, value) := splitEquals w
        match Switch.table.lookup (String.ofList name), value with
        | some s, some v => .ok (switch s (isShort name) (some ⟨true, v⟩))
        | _, _ =>
          match readings w with
          | [(_, reading)] => .ok reading
          | [] =>
            if isNegativeNumber w || w.contains ' ' then .ok (plain text) else .ok (unknown text)
          | rs => .error (.ambiguous text (rs.map (·.1)))

/-- The words of a command line. -/
def ofArguments : List String → Except UsageError (List Word)
  | [] => .ok []
  | a :: rest =>
    if a = "--" then .ok (separator :: rest.map plain)
    else do return (← classify a) :: (← ofArguments rest)

end Word
end RandomAccess.CommandLine

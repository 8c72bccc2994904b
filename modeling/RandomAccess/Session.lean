import RandomAccess.CommandLine.Arguments
import RandomAccess.Growth.Estimate
import RandomAccess.Growth.Measure
import RandomAccess.Program.Load
import RandomAccess.Text.File

/-! A session at the command line, from the words of the command to what is printed and written. -/
namespace RandomAccess

open CommandLine

/-- The files around a session. -/
structure Files where
  contents : List (String × ByteArray) := []
  /-- The folders in which files can be created, beside the current one. Each ends with a slash. -/
  folders : List String := []

namespace Files

/-- The folder in a file name, with its last slash. -/
def folder (name : String) : String :=
  String.ofList (name.toList.reverse.dropWhile (· ≠ '/')).reverse

def canCreate (files : Files) (name : String) : Bool :=
  folder name = "" || files.folders.contains (folder name)

end Files

/-- Why a session broke off. -/
inductive SessionError where
  | fileNotFound (name : String)
  | notText (name : String)
  | digitLimit (cause : DigitLimitError)
  | closedSink
  | numeric (cause : NumericError)
deriving DecidableEq, Repr

def SessionError.message : SessionError → String
  | fileNotFound name => "[Errno 2] No such file or directory: " ++ UsageError.quote name
  | notText _ => ""
  | digitLimit e => e.message
  | closedSink => Failure.closedSink.message
  | numeric e => e.message

/-- How a session ended. -/
inductive Ending where
  | exit (code : Nat)
  | broken (cause : SessionError)
  | outOfFuel
deriving DecidableEq, Repr

/-- What a session left behind. -/
structure Session where
  printed : String := ""
  errors : String := ""
  /-- The file that was written. -/
  written : Option (String × String) := none
  ending : Ending
deriving DecidableEq, Repr

namespace Session

def exit (code : Nat) (printed errors : String) : Session :=
  { printed, errors, ending := .exit code }

/-- An error of the program or its input, which the session reports. -/
def reported (message : String) : Session := exit 1 "" ("Error: " ++ message ++ "\n")

def broken (cause : SessionError) : Session := { ending := .broken cause }

def printing (s : Session) (before : String) : Session := { s with printed := before ++ s.printed }

/-! ## Files -/

/-- Why a file was not loaded. -/
inductive FileError where
  | reported (message : String)
  | broken (cause : SessionError)
deriving DecidableEq, Repr

def FileError.session : FileError → Session
  | reported message => Session.reported message
  | broken cause => Session.broken cause

def readText (files : Files) (name : String) : Except FileError (List Char) :=
  match files.contents.lookup name with
  | none => .error (.broken (.fileNotFound name))
  | some bytes =>
    match Text.decode? bytes with
    | none => .error (.broken (.notText name))
    | some s => .ok s

def readProgram (files : Files) (name : String) : Except FileError Program := do
  match Program.ofLines (Text.lines (← readText files name)) with
  | .ok p => return p
  | .error (.digitLimit e) => throw (.broken (.digitLimit e))
  | .error e => throw (.reported e.message)

def readTape (files : Files) (name : String) : Except FileError InputTape := do
  match InputTape.ofText (← readText files name) with
  | .ok t => return t
  | .error e => throw (.reported e.message)

/-- An empty file name counts as none. -/
def given (name : Option String) : Option String := name.filter (· ≠ "")

/-- The input tape of a run, which is empty if no file is named. -/
def inputTape (files : Files) (a : Arguments) : Except FileError InputTape :=
  match given a.input with
  | some name => readTape files name
  | none => .ok {}

/-! ## Running a program -/

/-- The values of a tape on one line. -/
def valuesLine (vs : List Int) : Except DigitLimitError String :=
  if vs.all Numeral.writable then .ok (" ".intercalate (vs.map Numeral.text) ++ "\n")
  else .error .writing

def statistics (t : Trace) : String :=
  "Всего команд выполнено: " ++ toString t.executed ++ "\n" ++
  "Использовано регистров: " ++ toString (t.used.getD 0) ++ "\n" ++
  "Статистика выполненных команд:\n" ++
  String.join (t.counts.map fun (k, n) => k ++ " " ++ toString n ++ "\n")

/-- The report on a machine that was executed. -/
def report (a : Arguments) (m : Machine) : Session :=
  let statistics := if a.notrace then "" else statistics m.trace
  let values := if (given a.output).isSome then .ok "" else valuesLine m.output.values.toList
  match values with
  | .error e => broken (.digitLimit e)
  | .ok line =>
    match m.result with
    | some r =>
      if r.isFault then exit 1 (line ++ statistics) ("Error: " ++ r.text ++ "\n")
      else exit 0 (line ++ statistics) ""
    | none => { ending := .outOfFuel }

/-- The output tape of a run, which goes to a file if one is named. -/
def outputTape (a : Arguments) : OutputTape :=
  if (given a.output).isSome then { sink := some { owned := true } } else {}

def runOptions (a : Arguments) : RunOptions := { limit := a.limit, debug := a.debug }

/-- The execution of a program. However it stops, the output tape is closed. -/
def executed (fuel : Nat) (a : Arguments) (p : Program) (input : InputTape) : Execution :=
  let e := (Machine.new p input (outputTape a)).execute fuel (runOptions a)
  { e with machine := { e.machine with output := e.machine.output.close } }

/-- What the session comes to once the program has been executed. -/
def conclude (a : Arguments) (e : Execution) : Session :=
  match e.stop with
  | .finished => report a e.machine
  | .failed (.fault f) => reported f.message
  | .failed (.digitLimit x) => broken (.digitLimit x)
  | .failed .closedSink => broken .closedSink
  | .outOfFuel => { ending := .outOfFuel }

/-- Executes a program and reports on it. -/
def runProgram (fuel : Nat) (a : Arguments) (p : Program) (input : InputTape) : Session :=
  let e := executed fuel a p input
  let written := do
    let name ← given a.output
    let sink ← e.machine.output.sink
    return (name, sink.content)
  { (conclude a e).printing e.printed with written }

/-! ## Actions -/

def execute (fuel : Nat) (files : Files) (a : Arguments) : Except FileError Session := do
  let p ← readProgram files a.path
  let input ← inputTape files a
  match given a.output with
  | some name => if !files.canCreate name then throw (.broken (.fileNotFound name))
  | none => pure ()
  return runProgram fuel a p input

def view (files : Files) (a : Arguments) : Except FileError Session := do
  match (← readProgram files a.path).listing with
  | .ok t => return exit 0 (t ++ "\n") ""
  | .error e => throw (.broken (.digitLimit e))

/-- The pairs of tape lengths and steps, as they are printed. -/
def samplesText (samples : List (Nat × Nat)) : String :=
  "[" ++ ", ".intercalate (samples.map fun (n, s) => "(" ++ toString n ++ ", " ++ toString s ++ ")")
    ++ "]"

/-- The growth that the samples show, as it is printed. -/
def growth (samples : List (Nat × Nat)) : Session :=
  let samples := samples.map fun (n, s) => (Number.int n, Number.int s)
  match Number.doubles.estimate 5 1e-6 samples with
  | .error e => broken (.numeric e)
  | .ok none => exit 0 "Complexity is undefined\n" ""
  | .ok (some coefs) =>
    exit 0 ("Complexity: O(n^" ++ Numeral.text (degree coefs) ++ ")\n" ++
      "Function: " ++ polynomialText coefs ++ "\n") ""

def analyze (fuel : Nat) (files : Files) (a : Arguments) : Except FileError Session := do
  let p ← readProgram files a.path
  let tapes ← a.tapes.mapM fun name => do return (← readTape files name).values.toList
  match p.stepCounts fuel { limit := a.limit } tapes with
  | .ok samples =>
    return (growth samples).printing ("Test results: " ++ samplesText samples ++ "\n")
  | .error (.failed (.digitLimit e)) => throw (.broken (.digitLimit e))
  | .error .outOfFuel => return { ending := .outOfFuel }
  | .error e => throw (.reported e.message)

/-- The end of a session whose command line was refused. -/
def refused (e : UsageError) : Session :=
  if e = .help then exit 0 "" "" else exit 2 "" ("RAM Machine: error: " ++ e.message ++ "\n")

/-- The session of a command line. -/
def run (fuel : Nat) (files : Files) (argv : List String) : Session :=
  match Arguments.parse argv with
  | .error e => refused e
  | .ok a =>
    let s := match a.action with
      | "execute" => execute fuel files a
      | "view" => view files a
      | "analyze" => analyze fuel files a
      | action => .ok (refused (.unknownAction action))
    match s with
    | .ok s => s
    | .error e => e.session

end Session
end RandomAccess

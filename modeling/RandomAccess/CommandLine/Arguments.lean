import RandomAccess.CommandLine.Word

/-! The arguments of a command line: an action, a program, tapes, and what the switches say. -/
namespace RandomAccess.CommandLine

structure Arguments where
  action : String := ""
  path : String := ""
  tapes : List String := []
  input : Option String := none
  output : Option String := none
  limit : Option Int := none
  notrace : Bool := false
  debug : Bool := false
deriving DecidableEq, Repr

/-- Which of the positional arguments are still to come. The tapes come together with the path. -/
inductive Awaited where
  | action | path | nothing
deriving DecidableEq, Repr

/-- The arguments found so far. -/
structure Progress where
  arguments : Arguments := {}
  awaited : Awaited := .action
  /-- Words without a place. -/
  extras : List String := []
deriving DecidableEq, Repr

/-! ## Positional arguments -/

/-- The next plain word, with the separators around it dropped. -/
def nextPlain : List Word → String × List Word
  | [] => ("", [])
  | .plain t :: r => (t, if r.head? = some .separator then r.tail else r)
  | _ :: r => nextPlain r

/-- The texts of the remaining words; one `--` among them does not count. -/
def tapeNames (ws : List Word) : List String := (ws.map (·.text)).erase "--"

def Progress.path (p : Progress) (ws : List Word) : Progress :=
  let (path, ws) := nextPlain ws
  { p with
    arguments := { p.arguments with path, tapes := tapeNames ws }
    awaited := .nothing }

/-- Takes a run of words between switches. It is used up as a whole, or not at all if it holds too
few plain words. -/
def Progress.positional (p : Progress) (ws : List Word) : Progress :=
  let count := ws.countP (·.isPlain)
  if p.awaited = .action ∧ 0 < count then
    let (action, rest) := nextPlain ws
    let p := { p with arguments := { p.arguments with action }, awaited := .path }
    if count = 1 then p else p.path rest
  else if p.awaited = .path ∧ 0 < count then p.path ws
  else { p with extras := p.extras ++ ws.map (·.text) }

/-! ## Switches -/

def Arguments.flag (a : Arguments) : Switch → Except UsageError Arguments
  | .help => .error .help
  | .notrace => .ok { a with notrace := true }
  | .debug => .ok { a with debug := true }
  | _ => .ok a

def Arguments.value (a : Arguments) (s : Switch) (v : String) : Except UsageError Arguments :=
  match s with
  | .input => .ok { a with input := some v }
  | .output => .ok { a with output := some v }
  | .maxIterations =>
    match Numeral.readPadded? v.toList with
    | some n => .ok { a with limit := some n }
    | none => .error (.invalidInteger s v)
  | _ => .ok a

/-- The switches of one word: several short ones may stand together, and the last may have a
value. -/
structure Cluster where
  flags : List Switch := []
  last : Option (Switch × Option (List Char)) := none
  /-- Letters of the word that are no switches. -/
  extra : Option (List Char) := none
deriving DecidableEq, Repr

def shortSwitch? (c : Char) : Option Switch := Switch.table.lookup (String.ofList ['-', c])

/-- The switches of a word that starts with the short switch `s`, where `value` follows it. -/
def cluster (s : Switch) (equals : Bool) (value : List Char) : Except UsageError Cluster :=
  if s.takesValue then .ok { last := some (s, some value) }
  else match value with
    | [] => .error (.ignoredValue s "")
    | c :: r =>
      if equals ∨ c = '-' then .error (.ignoredValue s (String.ofList (c :: r)))
      else match shortSwitch? c with
        | none => .ok { flags := [s], extra := some ('-' :: c :: r) }
        | some s' => do
          let rest ← match r with
            | [] => pure { last := some (s', none) }
            | '=' :: v => cluster s' true v
            | d :: v => cluster s' false (d :: v)
          return { rest with flags := s :: rest.flags }

def Cluster.ofSwitch (s : Switch) (short : Bool) (attached : Option Attached) :
    Except UsageError Cluster :=
  match attached with
  | none => .ok { last := some (s, none) }
  | some a =>
    if short ∨ s.takesValue then cluster s a.equals a.value
    else .error (.ignoredValue s (String.ofList a.value))

/-- Takes the switches of a word; the value of the last may be the next word. The rest of the words
is returned. -/
def Progress.switches (p : Progress) (c : Cluster) (rest : List Word) :
    Except UsageError (Progress × List Word) := do
  let (value, rest) ← match c.last with
    | some (s, none) =>
      if s.takesValue then
        match rest with
        | .plain v :: rest => pure (some v, rest)
        | _ => throw (.missingValue s)
      else pure (none, rest)
    | some (_, some v) => pure (some (String.ofList v), rest)
    | none => pure (none, rest)
  let a ← c.flags.foldlM Arguments.flag p.arguments
  let a ← match c.last, value with
    | some (s, _), some v => a.value s v
    | some (s, _), none => a.flag s
    | none, _ => pure a
  return ({ p with arguments := a, extras := p.extras ++ (c.extra.map String.ofList).toList }, rest)

/-! ## Whole command lines -/

/-- Takes all words in order; `fuel` bounds their number. -/
def Progress.words (p : Progress) : Nat → List Word → Except UsageError Progress
  | 0, _ | _, [] => .ok p
  | fuel + 1, .unknown t :: rest =>
    { p with extras := p.extras ++ [t] }.words fuel rest
  | fuel + 1, .switch s short attached :: rest => do
    let (p, rest) ← p.switches (← Cluster.ofSwitch s short attached) rest
    p.words fuel rest
  | fuel + 1, ws =>
    (p.positional (ws.takeWhile (!·.isSwitch))).words fuel (ws.dropWhile (!·.isSwitch))

def Progress.finish (p : Progress) : Except UsageError Arguments :=
  match p.awaited with
  | .action => .error (.missing ["action", "path", "tapes"])
  | .path => .error (.missing ["path", "tapes"])
  | .nothing => if p.extras.isEmpty then .ok p.arguments else .error (.unrecognized p.extras)

/-- Reads a command line. -/
def Arguments.parse (argv : List String) : Except UsageError Arguments := do
  let ws ← Word.ofArguments argv
  (← ({} : Progress).words ws.length ws).finish

end RandomAccess.CommandLine

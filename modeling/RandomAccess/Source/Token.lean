import RandomAccess.Instruction

/-! The tokens of a source line. Every reader drops the gap before its token and returns what
follows it. -/
namespace RandomAccess.Source

/-- Characters that may stand between tokens. -/
def isGap (c : Char) : Bool := c = ' ' || c = '\t' || c = '\n' || c = '\r'

def skip (s : List Char) : List Char := s.dropWhile isGap

/-- A given character. -/
def symbol? (c : Char) (s : List Char) : Option (List Char) :=
  match skip s with
  | d :: r => if d = c then some r else none
  | [] => none

/-! ## Tags -/

def isTagStart (c : Char) : Bool := c.isAlpha || c = '_'

def isTagChar (c : Char) : Bool := c.isAlphanum || c = '_'

/-- A tag, in small letters. -/
def tag? (s : List Char) : Option (String × List Char) :=
  match skip s with
  | c :: r =>
    if isTagStart c then
      some (String.ofList ((c :: r.takeWhile isTagChar).map Char.toLower), r.dropWhile isTagChar)
    else none
  | [] => none

/-- A tag with a colon after it. -/
def label? (s : List Char) : Option (String × List Char) := do
  let (t, r) ← tag? s
  return (t, ← symbol? ':' r)

/-! ## Keywords -/

/-- The capital of a character, as far as it is ASCII. The dotless i and the long s are the only
other letters with such a capital. -/
def capital (c : Char) : Char :=
  if c = '\u0131' then 'I' else if c = '\u017F' then 'S' else c.toUpper

/-- A keyword ends where none of these characters follows. -/
def continuesKeyword (c : Char) : Bool :=
  (capital c).isAlphanum || capital c = '_' || capital c = '$'

/-- The keyword of an operation, in letters of any case. -/
def keyword? (op : Opcode) (s : List Char) : Option (List Char) :=
  let word := op.mnemonic.toList
  let s := skip s
  let r := s.drop word.length
  if (s.take word.length).map capital = word ∧ ¬ r.head?.any continuesKeyword then some r else none

def opcode? (s : List Char) : Option (Opcode × List Char) :=
  Opcode.all.findSome? fun op => (keyword? op s).map (op, ·)

/-! ## Operands -/

/-- An attempt to read a token that holds a number. -/
inductive Reading (α : Type) where
  | absent
  | token (value : α) (rest : List Char)
  /-- The number has too many digits, which no other reading of the line can mend. -/
  | tooLong (cause : DigitLimitError)
deriving DecidableEq, Repr

def Reading.map {α β : Type} (f : α → β) : Reading α → Reading β
  | absent => absent
  | token a r => token (f a) r
  | tooLong e => tooLong e

/-- The digits that satisfy `p` at the very start, as a number. -/
def row (p : Char → Bool) (s : List Char) : Reading Nat :=
  match s.takeWhile p with
  | [] => .absent
  | ds =>
    match Numeral.ofRow ds with
    | .ok n => .token n (s.dropWhile p)
    | .error e => .tooLong e

/-- An optional sign and decimal digits of any script. -/
def integer (s : List Char) : Reading Int :=
  let (negative, digits) := Numeral.sign (skip s)
  (row Text.isDecimalDigit digits).map (Numeral.signed negative)

/-- The index of a register in ASCII digits. -/
def register (s : List Char) : Reading Int := (row Char.isDigit (skip s)).map Int.ofNat

/-- `=n`, `*n`, `n` or a tag; the first character tells which. -/
def operand (s : List Char) : Reading Operand :=
  match skip s with
  | [] => .absent
  | c :: r =>
    if c = '=' then (integer r).map .constant
    else if c = '*' then (register r).map .indirect
    else if c.isDigit then (register (c :: r)).map .direct
    else match tag? (c :: r) with
      | some (t, r) => .token (.tag t) r
      | none => .absent

end RandomAccess.Source

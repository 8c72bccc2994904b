import RandomAccess.Decimal.Power
import RandomAccess.Text.Blank
import RandomAccess.Text.DecimalDigit

/-! Decimal numerals. Integers are unbounded, their numerals are not: a numeral of more than
`digitLimit` digits is neither read nor written. -/
namespace RandomAccess

/-- The greatest number of digits of a numeral. -/
def digitLimit : Nat := 4300

/-- A numeral would have more than `digitLimit` digits. -/
inductive DigitLimitError where
  | reading (digits : Nat)
  | writing
deriving DecidableEq, Repr

def DigitLimitError.message : DigitLimitError → String
  | .reading n =>
    "Exceeds the limit (4300 digits) for integer string conversion: value has " ++ toString n ++
      " digits; use sys.set_int_max_str_digits() to increase the limit"
  | .writing =>
    "Exceeds the limit (4300 digits) for integer string conversion; " ++
      "use sys.set_int_max_str_digits() to increase the limit"

namespace Numeral

/-! ## Writing -/

/-- The decimal digits of an integer, after a minus sign if it is negative. -/
def text : Int → String
  | .ofNat n => String.ofList (Nat.toDigits 10 n)
  | .negSucc n => String.ofList ('-' :: Nat.toDigits 10 (n + 1))

/-- The integers that have a numeral. -/
def writable (v : Int) : Bool := v.natAbs < pow10 digitLimit

/-! ## Reading -/

/-- The number that a list of digits spells in base ten. -/
def ofDigits (ds : List Nat) : Nat := ds.foldl (fun n d => 10 * n + d) 0

/-- Splits off a sign; `true` stands for minus. -/
def sign : List Char → Bool × List Char
  | '+' :: r => (false, r)
  | '-' :: r => (true, r)
  | s => (false, s)

def signed (negative : Bool) (n : Nat) : Int := if negative then -n else n

/-- The values of a non-empty row of digits; single underscores may stand between two digits. -/
def spelled? : List Char → Option (List Nat)
  | [] => none
  | [c] => (Text.digitValue? c).map ([·])
  | c :: '_' :: r => do return (← Text.digitValue? c) :: (← spelled? r)
  | c :: r => do return (← Text.digitValue? c) :: (← spelled? r)

/-- Reads a numeral: an optional sign and digits of any script. -/
def read? (s : List Char) : Option Int :=
  match spelled? (sign s).2 with
  | some ds => if ds.length ≤ digitLimit then some (signed (sign s).1 (ofDigits ds)) else none
  | none => none

/-- Blanks that may surround a numeral; the separators U+001C to U+001F may not. -/
def isPadding (c : Char) : Bool := Text.isBlank c && !(0x1C ≤ c.toNat && c.toNat ≤ 0x1F)

def readPadded? (s : List Char) : Option Int := read? (Text.trimBy isPadding s)

/-- The number of a row of digits without sign or underscores. -/
def ofRow (row : List Char) : Except DigitLimitError Nat :=
  if row.length ≤ digitLimit then .ok (ofDigits (row.filterMap Text.digitValue?))
  else .error (.reading row.length)

end Numeral
end RandomAccess

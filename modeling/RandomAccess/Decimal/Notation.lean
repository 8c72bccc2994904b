import RandomAccess.Decimal.Shortest

/-! The text of a double: its shortest decimal, positional from `10 ^ -4` up to `10 ^ 16` and with
an exponent elsewhere. -/
namespace RandomAccess.Double

def zerosText (n : Nat) : List Char := List.replicate n '0'

/-- Digits with a point after the digit of `10 ^ 0`; the first digit counts `10 ^ e`. -/
def positional (digits : List Char) (e : Int) : List Char :=
  if e < 0 then '0' :: '.' :: zerosText (-e - 1).toNat ++ digits
  else
    let n := e.toNat + 1
    if digits.length ≤ n then digits ++ zerosText (n - digits.length) ++ ['.', '0']
    else digits.take n ++ '.' :: digits.drop n

/-- Digits with a point after the first, and an exponent of at least two digits. -/
def scientific (digits : List Char) (e : Int) : List Char :=
  let mantissa := match digits with
    | d :: r => if r = [] then [d] else d :: '.' :: r
    | [] => []
  let exponent := Nat.toDigits 10 e.natAbs
  mantissa ++ ['e', if e < 0 then '-' else '+'] ++ zerosText (2 - exponent.length) ++ exponent

def Digits.text (c : Digits) : List Char :=
  let digits := Nat.toDigits 10 c.d
  let e : Int := c.k + digits.length - 1
  let significant := (digits.reverse.dropWhile (· = '0')).reverse
  if -4 ≤ e ∧ e < 16 then positional significant e else scientific significant e

def text (x : Float) : String :=
  match view x with
  | .nan => "nan"
  | .infinite negative => if negative then "-inf" else "inf"
  | .finite negative m q =>
    let magnitude := if m = 0 then ['0', '.', '0'] else (shortest m q).text
    String.ofList (if negative then '-' :: magnitude else magnitude)

end RandomAccess.Double

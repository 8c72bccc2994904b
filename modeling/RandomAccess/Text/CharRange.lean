/-! Sets of characters, given as inclusive ranges of code points. -/
namespace RandomAccess.Text

/-- A set of characters as a list of inclusive ranges of code points. -/
abbrev CharRanges := List (Nat × Nat)

def CharRanges.contains (rs : CharRanges) (c : Char) : Bool :=
  rs.any fun r => r.1 ≤ c.toNat && c.toNat ≤ r.2

end RandomAccess.Text

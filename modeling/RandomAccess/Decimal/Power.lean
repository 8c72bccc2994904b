/-! Powers of the two bases that numbers are written in. -/
namespace RandomAccess

/-- Two to a power. -/
def pow2 (k : Nat) : Nat := Nat.pow 2 k

/-- Ten to a power. -/
def pow10 (k : Nat) : Nat := Nat.pow 10 k

end RandomAccess

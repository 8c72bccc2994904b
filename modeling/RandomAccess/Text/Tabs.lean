/-! Tab stops every eight columns. -/
namespace RandomAccess.Text

/-- Expands the tabs of a text that starts in column `col`; a line feed or a carriage return starts
a new line. -/
def expandTabsFrom (col : Nat) : List Char → List Char
  | [] => []
  | c :: r =>
    if c = '\t' then
      List.replicate (8 - col % 8) ' ' ++ expandTabsFrom (col + (8 - col % 8)) r
    else if c = '\n' ∨ c = '\r' then c :: expandTabsFrom 0 r
    else c :: expandTabsFrom (col + 1) r

def expandTabs (s : List Char) : List Char := expandTabsFrom 0 s

end RandomAccess.Text

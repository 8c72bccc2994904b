import RandomAccess.Text.CharRange

/-! Blank characters, and the two uses of them: trimming a line and cutting a text into words. -/
namespace RandomAccess.Text

/-- The characters of Unicode's white space property, and the four separators U+001C to U+001F. -/
def blanks : CharRanges :=
  [(0x09, 0x0D), (0x1C, 0x20), (0x85, 0x85), (0xA0, 0xA0), (0x1680, 0x1680), (0x2000, 0x200A),
   (0x2028, 0x2029), (0x202F, 0x202F), (0x205F, 0x205F), (0x3000, 0x3000)]

def isBlank (c : Char) : Bool := blanks.contains c

/-- The text without the characters of `p` at its two ends. -/
def trimBy (p : Char → Bool) (s : List Char) : List Char :=
  ((s.dropWhile p).reverse.dropWhile p).reverse

/-- The text without the blanks at its two ends. -/
def trim (s : List Char) : List Char := trimBy isBlank s

/-- The maximal runs of characters that are not blank, in order. -/
def words (s : List Char) : List (List Char) :=
  (s.splitOnP isBlank).filter (!·.isEmpty)

/-- The pieces of a text between line feeds; a text without one is a single line. -/
def lines (s : List Char) : List (List Char) := s.splitOn '\n'

end RandomAccess.Text

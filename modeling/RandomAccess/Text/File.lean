/-! The text of a file. -/
namespace RandomAccess.Text

/-- All line ends become line feeds. -/
def unifyLineEnds : List Char → List Char
  | '\r' :: '\n' :: r => '\n' :: unifyLineEnds r
  | '\r' :: r => '\n' :: unifyLineEnds r
  | c :: r => c :: unifyLineEnds r
  | [] => []

/-- The text of the bytes of a file, if they are UTF-8. -/
def decode? (bytes : ByteArray) : Option (List Char) :=
  (String.fromUTF8? bytes).map fun s => unifyLineEnds s.toList

end RandomAccess.Text

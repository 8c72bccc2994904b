import Mathlib.Data.List.Forall2
import Mathlib.Data.Nat.Digits.Defs
import RandomAccess.Proofs.Text.Span
import RandomAccess.Source.Statement

/-!
# The grammar of source lines

    line        = [instruction | label] [comment] end
    instruction = [label] (HALT [operand] | mnemonic operand)
    label       = tag ":"
    operand     = "=" integer | "*" register | register | tag

A derivation is a tree that holds every character of its line: the gaps before the tokens, the tokens
and the comment. Its text is the line, its value is what the line says.
-/

namespace RandomAccess.Grammar

open Source

/-! ## Tokens -/

/-- Spaces, tabs and ends of line. -/
@[ext] structure Gap where
  text : List Char
  isGap : ∀ c ∈ text, isGap c = true

/-- An ASCII letter or an underscore, then also digits. -/
@[ext] structure Tag where
  first : Char
  rest : List Char
  isTagStart : isTagStart first = true
  isTagChar : ∀ c ∈ rest, isTagChar c = true

def Tag.text (n : Tag) : List Char := n.first :: n.rest

/-- The tag in small letters. -/
def Tag.value (n : Tag) : String := String.ofList (n.text.map Char.toLower)

/-- At least one digit; `p` tells which characters are digits. -/
@[ext] structure Digits (p : Char → Bool) where
  text : List Char
  ne_nil : text ≠ []
  isDigit : ∀ c ∈ text, p c = true

/-- The number that the digits spell in base ten; the last digit counts the ones. -/
def Digits.value {p : Char → Bool} (d : Digits p) : Nat :=
  Nat.ofDigits 10 (d.text.filterMap Text.digitValue?).reverse

inductive Sign where
  | none | plus | minus

def Sign.text : Sign → List Char
  | .none => []
  | .plus => ['+']
  | .minus => ['-']

def Sign.apply : Sign → Nat → Int
  | .minus, n => -n
  | _, n => n

/-- A letter of a keyword: the capital, the small letter, or a letter outside ASCII whose capital it
is. -/
def Letter (capital c : Char) : Prop :=
  c = capital ∨ c = capital.toLower ∨ capital = 'I' ∧ c = '\u0131' ∨ capital = 'S' ∧ c = '\u017F'

/-- A letter, a digit, an underscore or a dollar sign: none of them may follow a keyword. -/
def isWordChar (c : Char) : Bool := c.isAlphanum || c = '_' || c = '$'

/-- The keyword of an operation in letters of any case. -/
@[ext] structure Keyword where
  op : Opcode
  text : List Char
  spelled : List.Forall₂ Letter op.mnemonic.toList text

/-! ## Trees -/

inductive Operand where
  | constant (gap₁ gap₂ : Gap) (sign : Sign) (digits : Digits Text.isDecimalDigit)
  | indirect (gap₁ gap₂ : Gap) (digits : Digits Char.isDigit)
  | direct (gap : Gap) (digits : Digits Char.isDigit)
  | tag (gap : Gap) (name : Tag)

namespace Operand

def text : Operand → List Char
  | constant g₁ g₂ s d => g₁.text ++ '=' :: (g₂.text ++ (s.text ++ d.text))
  | indirect g₁ g₂ d => g₁.text ++ '*' :: (g₂.text ++ d.text)
  | direct g d => g.text ++ d.text
  | tag g n => g.text ++ n.text

def value : Operand → RandomAccess.Operand
  | constant _ _ s d => .constant (s.apply d.value)
  | indirect _ _ d => .indirect d.value
  | direct _ d => .direct d.value
  | tag _ n => .tag n.value

/-- The last token of the operand goes no further. -/
def Closed (rest : List Char) : Operand → Prop
  | constant _ _ _ _ => Text.Ends Text.isDecimalDigit rest
  | indirect _ _ _ | direct _ _ => Text.Ends Char.isDigit rest
  | tag _ _ => Text.Ends Source.isTagChar rest

/-- The number of digits. -/
def length : Operand → Nat
  | constant _ _ _ d => d.text.length
  | indirect _ _ d | direct _ d => d.text.length
  | tag _ _ => 0

end Operand

@[ext] structure Label where
  gap₁ : Gap
  name : Tag
  gap₂ : Gap

def Label.text (l : Label) : List Char := l.gap₁.text ++ (l.name.text ++ (l.gap₂.text ++ [':']))

def Label.value (l : Label) : String := l.name.value

@[ext] structure Command where
  gap : Gap
  keyword : Keyword
  operand : Option Operand
  /-- Only `halt` does without an operand. -/
  complete : keyword.op ≠ .halt → operand ≠ none

namespace Command

def argument (c : Command) : List Char := (c.operand.map Operand.text).getD []

def text (c : Command) : List Char := c.gap.text ++ (c.keyword.text ++ c.argument)

/-- The operand of `halt` is dropped. -/
def value (c : Command) : Instruction where
  opcode := c.keyword.op
  operand := if c.keyword.op = .halt then none else c.operand.map Operand.value

def length (c : Command) : Nat := (c.operand.map Operand.length).getD 0

end Command

inductive Statement where
  | nothing
  | label (l : Label)
  | instruction (l : Option Label) (c : Command)

namespace Statement

def text : Statement → List Char
  | nothing => []
  | label l => l.text
  | instruction l c => (l.map Label.text).getD [] ++ c.text

def value : Statement → Source.Statement
  | nothing => .nothing
  | label l => .label l.value
  | instruction l c => .instruction { c.value with label := l.map Label.value }

/-- The number of digits of the number in the statement. -/
def length : Statement → Nat
  | instruction _ c => c.length
  | _ => 0

/-- No character of a word follows the keyword. -/
def Bounded (rest : List Char) : Statement → Prop
  | instruction _ c => Text.Ends isWordChar (c.argument ++ rest)
  | _ => True

end Statement

@[ext] structure Comment where
  gap : Gap
  mark : Char
  body : List Char
  isMark : mark = '#' ∨ mark = ';'
  inLine : ∀ c ∈ body, c ≠ '\n'

def Comment.text (c : Comment) : List Char := c.gap.text ++ c.mark :: c.body

/-- What may follow a statement. A comment goes on to the end of its line. -/
@[ext] structure Tail where
  comment : Option Comment
  gap : Gap
  ends : comment ≠ none → Text.Ends (· ≠ '\n') gap.text

def Tail.text (t : Tail) : List Char := (t.comment.map Comment.text).getD [] ++ t.gap.text

/-- A derivation. -/
@[ext] structure Line where
  statement : Statement
  tail : Tail
  bounded : statement.Bounded tail.text

namespace Line

def text (l : Line) : List Char := l.statement.text ++ l.tail.text

def value (l : Line) : Source.Statement := l.statement.value

/-- The number on the line, if there is one, can be read. -/
def Readable (l : Line) : Prop := l.statement.length ≤ digitLimit

instance (l : Line) : Decidable l.Readable := inferInstanceAs (Decidable (_ ≤ _))

end Line

/-- The text starts with an instruction whose number has `n` digits, which are too many. What follows the
number does not matter. -/
def Overlong (s : List Char) (n : Nat) : Prop :=
  ∃ (l : Option Label) (c : Command) (o : Operand) (r : List Char),
    s = (Statement.instruction l c).text ++ r ∧ (Statement.instruction l c).Bounded r ∧
      c.operand = some o ∧ o.Closed r ∧ o.length = n ∧ digitLimit < n

end RandomAccess.Grammar

import Mathlib.Data.List.Chain
import RandomAccess.Proofs.Program.WellFormed
import RandomAccess.Proofs.Source.Derivation

/-!
# Sources and their offences

Which lists of lines are the source of a program, said of the lines as a whole: what each line says, which
statements may follow each other, and which labels there are. Lines that are no source have a first
offence.
-/

namespace RandomAccess

def Instruction.withLabel (i : Instruction) (l : Option String) : Instruction := { i with label := l }

namespace Program

open Grammar (Line Overlong)

/-! ## Lines -/

/-- The line has a derivation that can be read, with this statement. A blank line says nothing. -/
def Reads (s : List Char) (st : Source.Statement) : Prop :=
  ∃ l : Line, l.text = Text.trim s ∧ l.Readable ∧ l.value = st

/-- Neither a statement nor an instruction whose number is too long. -/
def Malformed (s : List Char) : Prop :=
  (∀ st, ¬ Reads s st) ∧ ∀ n, ¬ Overlong (Text.trim s) n

/-! ## Statements -/

/-- The instructions of the statements. A label on a line of its own goes to the next instruction, and so
does the label `w` that waits at the start. -/
def attach (w : Option String) : List Source.Statement → List Instruction
  | [] => []
  | .nothing :: r => attach w r
  | .label l :: r => attach (some l) r
  | .instruction i :: r => i.withLabel (i.label.or w) :: attach none r

/-- The label that waits after the statements, if `w` waits before them. -/
def waiting (w : Option String) : List Source.Statement → Option String
  | [] => w
  | .nothing :: r => waiting w r
  | .label l :: r => waiting (some l) r
  | .instruction _ :: r => waiting none r

/-- The labels of the statements, in small letters. -/
def names (sts : List Source.Statement) : List String :=
  (attach none sts).filterMap fun i => i.mark.map Text.lower

/-- A label on a line of its own is followed by an instruction without a label. -/
def Follows (st st' : Source.Statement) : Prop :=
  ∀ l, st = .label l → ∃ i, st' = .instruction i ∧ i.label = none

/-- No statement offends against those before it. -/
structure Clean (sts : List Source.Statement) : Prop where
  follows : (sts.filter (· ≠ .nothing)).IsChain Follows
  distinct : (names sts).Nodup

/-- Every tag of the instruction is a label of the statements. -/
def Defined (sts : List Source.Statement) (i : Instruction) : Prop :=
  ∀ t, i.operand = some (.tag t) → t ∈ names sts

/-! ## Programs -/

/-- The lines are the source of the program. -/
def Loads (lines : List (List Char)) (p : Program) : Prop :=
  ∃ sts, List.Forall₂ Reads lines sts ∧ Clean sts ∧ waiting none sts = none ∧
    (∀ i ∈ attach none sts, Defined sts i) ∧ p = ofInstructions (attach none sts)

/-- Line `n` offends against the statements before it. -/
inductive Offends (n : Nat) (sts : List Source.Statement) (s : List Char) : LoadError → Prop
  | overlong {k : Nat} : Overlong (Text.trim s) k → Offends n sts s (.digitLimit (.reading k))
  | malformed {place : Source.Mismatch} : Malformed s →
      Source.Statement.read (Text.trim s) = .error (.mismatch place) →
      Offends n sts s (.malformed n (String.ofList (Text.trim s)) place)
  | labelWaiting {w l : String} : Reads s (.label l) → waiting none sts = some w →
      Offends n sts s (.labelWaiting n w)
  | twoLabels {w own : String} {i : Instruction} : Reads s (.instruction i) → i.label = some own →
      waiting none sts = some w → Offends n sts s (.twoLabels n w own)
  | duplicateLabel {l : String} {i : Instruction} : Reads s (.instruction i) →
      i.label = none ∨ waiting none sts = none →
      (i.withLabel (i.label.or (waiting none sts))).mark = some l →
      Text.lower l ∈ names sts → Offends n sts s (.duplicateLabel (Text.lower l))

/-- The first offence of the lines: that of the first line that offends against the lines before it, or
else a label that waits at the end, or else the first tag that is no label. -/
inductive FirstOffence (lines : List (List Char)) : LoadError → Prop
  | line {before after : List (List Char)} {s : List Char} {sts : List Source.Statement} {e : LoadError} :
      lines = before ++ s :: after → List.Forall₂ Reads before sts → Clean sts →
      Offends (before.length + 1) sts s e → FirstOffence lines e
  | danglingLabel {sts : List Source.Statement} {w : String} : List.Forall₂ Reads lines sts → Clean sts →
      waiting none sts = some w → FirstOffence lines (.danglingLabel w)
  | undefinedTag {sts : List Source.Statement} {is js : List Instruction} {i : Instruction} {t : String} :
      List.Forall₂ Reads lines sts → Clean sts → waiting none sts = none →
      attach none sts = is ++ i :: js → (∀ j ∈ is, Defined sts j) → i.operand = some (.tag t) →
      t ∉ names sts → FirstOffence lines (.undefinedTag t)

end Program
end RandomAccess

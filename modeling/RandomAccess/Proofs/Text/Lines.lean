import RandomAccess.Proofs.Numeral
import RandomAccess.Tape.Output

/-!
# Lines of text

What a machine prints or sends to a file is made of lines, each of them ended by a line feed. A line that has
no line feed of its own is one line and not more. The lines of an output tape are its values in decimal.
-/

namespace RandomAccess

/-! ## Texts on one line -/

/-- The text has no line feed in it. -/
def OneLine (s : String) : Prop := '\n' ∉ s.toList

theorem OneLine.append {s t : String} (hs : OneLine s) (ht : OneLine t) : OneLine (s ++ t) := by
  rw [OneLine, String.toList_append, List.mem_append, not_or]
  exact ⟨hs, ht⟩

theorem OneLine.ofList {l : List Char} (h : '\n' ∉ l) : OneLine (String.ofList l) := by
  rwa [OneLine, String.toList_ofList]

/-- A message goes on with some words and what they are about. -/
theorem OneLine.next {s t : String} {l : List Char} (hs : OneLine s) (hl : '\n' ∉ l) (ht : OneLine t) :
    OneLine (s ++ String.ofList l ++ t) :=
  (hs.append (.ofList hl)).append ht

theorem OneLine.intercalate {sep : String} {ss : List String} (hsep : OneLine sep)
    (h : ∀ s ∈ ss, OneLine s) : OneLine (sep.intercalate ss) := by
  induction ss with
  | nil =>
      rw [String.intercalate_nil]
      exact .ofList (l := []) nofun
  | cons s ss ih =>
      have hs := h s (by simp)
      cases ss with
      | nil =>
          rw [String.intercalate_singleton]
          exact hs
      | cons t ss =>
          rw [String.intercalate_cons_cons]
          exact (hs.append hsep).append (ih fun u hu => h u (by simp [hu]))

/-! ## Texts of lines -/

namespace Text

/-- The text of lines. -/
def unlines (lines : List String) : String := String.join (lines.map (· ++ "\n"))

variable (line : String) (lines lines' : List String)

@[simp] theorem unlines_nil : unlines [] = "" := rfl

@[simp] theorem unlines_cons : unlines (line :: lines) = line ++ "\n" ++ unlines lines := by simp [unlines]

@[simp] theorem unlines_append : unlines (lines ++ lines') = unlines lines ++ unlines lines' := by
  simp [unlines]

end Text

/-! ## Lines of an output tape -/

theorem OutputTape.line_eq (v : Int) : line v = toString v ++ "\n" := by
  rw [line, Numeral.text_eq_toString]

theorem OutputTape.join_line (vs : List Int) : String.join (vs.map line) = Text.unlines (vs.map toString) := by
  rw [Text.unlines, List.map_map]
  exact congrArg String.join (List.map_congr_left fun v _ => line_eq v)

end RandomAccess

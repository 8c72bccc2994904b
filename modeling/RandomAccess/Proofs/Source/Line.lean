import RandomAccess.Proofs.Source.Derivation
import RandomAccess.Proofs.Source.Tabs

/-!
# Lines as they are read

A line is read as its derivation says. Tabs are expanded before, which changes neither the derivations
nor what they say.
-/

namespace RandomAccess.Source

open Grammar (Digits Line)

variable {line : List Char}

theorem expanded_expandTabs (line : List Char) : Expanded line (Text.expandTabs line) :=
  expanded_expandTabsFrom 0 line

theorem read_eq_ok_iff {st : Statement} :
    Statement.read line = .ok st ↔ ∃ r, statement line = .ok (st, r) ∧ skip (dropComment r) = [] := by
  rcases statement_expanded (expanded_expandTabs line) with ⟨e, hs, ht⟩ | ⟨st', r, r', hs, ht, hr⟩
  · simp [Statement.read, hs, ht]
  · have hskip := (dropComment_expanded hr).skip_eq_nil_iff
    simp only [Statement.read, hs, ht, Except.ok.injEq, Prod.mk.injEq]
    cases hd : skip (dropComment r') with
    | nil =>
        constructor
        · intro h
          cases h
          exact ⟨r, ⟨rfl, rfl⟩, hskip.mpr hd⟩
        · rintro ⟨_, ⟨rfl, rfl⟩, -⟩
          rfl
    | cons c u =>
        constructor
        · intro h
          cases h
        · rintro ⟨_, ⟨-, rfl⟩, h⟩
          rw [hskip.mp h] at hd
          cases hd

theorem read_eq_digitLimit_iff {e : DigitLimitError} :
    Statement.read line = .error (.digitLimit e) ↔ statement line = .error e := by
  rcases statement_expanded (expanded_expandTabs line) with ⟨e', hs, ht⟩ | ⟨st', r, r', hs, ht, hr⟩
  · simp [Statement.read, hs, ht]
  · simp only [Statement.read, hs, ht]
    split <;> simp

/-- Reading a line gives the statement of its derivation, of which there is at most one; a line
without a derivation is not read, and neither is one whose number is too long. -/
theorem read_eq_ok_iff_derivation (line : List Char) :
    (∀ st, Statement.read line = .ok st ↔ ∃ l : Line, l.text = line ∧ l.Readable ∧ l.value = st) ∧
      (∀ l l' : Line, l.text = line → l'.text = line → l = l') ∧
      ∀ l : Line, l.text = line → ¬ l.Readable →
        Statement.read line = .error (.digitLimit (.reading l.statement.length)) := by
  refine ⟨fun st => read_eq_ok_iff.trans exists_line_iff, ?_, ?_⟩
  · intro l l' h h'
    exact line_unique (h.trans h'.symm)
  · rintro l rfl hl
    rw [read_eq_digitLimit_iff, statement_line, if_neg hl]

theorem read_eq_ok_iff_derivation_label :
    ∃ l : Line, l.text = "a:load=5#x".toList ∧
      l.value = .instruction ⟨.load, some (.constant 5), some "a"⟩ := by
  have hread : Statement.read "a:load=5#x".toList =
      .ok (.instruction ⟨.load, some (.constant 5), some "a"⟩) := by
    decide +kernel
  obtain ⟨l, hl, -, hv⟩ := ((read_eq_ok_iff_derivation "a:load=5#x".toList).1 _).mp hread
  exact ⟨l, hl, hv⟩

/-- The number five with one digit too many. -/
def longFive : Digits Text.isDecimalDigit where
  text := List.replicate digitLimit '0' ++ ['5']
  ne_nil := by simp
  isDigit := by
    intro c hc
    rcases List.mem_append.mp hc with h | h
    · rw [List.eq_of_mem_replicate h]
      decide
    · rw [List.mem_singleton.mp h]
      decide

/-- The derivation of `load =00…05`. -/
def longLine : Line where
  statement := .instruction none ⟨noGap, ⟨.load, "load".toList, (spelled_iff .load).mp (by decide)⟩,
    some (.constant space noGap .none longFive), nofun⟩
  tail := ⟨none, noGap, absurd rfl⟩
  bounded := .cons (by decide)

theorem longLine_text : longLine.text = "load =".toList ++ (List.replicate digitLimit '0' ++ ['5']) :=
  List.append_nil _

/-- A trimmed line that is not read although it has a derivation. -/
theorem longLine_not_read :
    Text.trim longLine.text = longLine.text ∧ longLine.text ≠ [] ∧
      ¬ ((∃ st, Statement.read longLine.text = .ok st) ↔ ∃ l : Line, l.text = longLine.text) := by
  have hlength : longLine.statement.length = digitLimit + 1 := by
    show (List.replicate digitLimit '0' ++ ['5']).length = digitLimit + 1
    rw [List.length_append, List.length_replicate, List.length_singleton]
  refine ⟨?_, ?_, ?_⟩
  · rw [longLine_text]
    refine Text.trimBy_eq_self (.cons (by decide)) ?_
    rw [List.reverse_append, List.reverse_append]
    exact .cons (by decide)
  · rw [longLine_text]
    exact nofun
  · intro h
    obtain ⟨st, hst⟩ := h.mpr ⟨longLine, rfl⟩
    obtain ⟨l, hl, hreadable, -⟩ := exists_line_iff.mp (read_eq_ok_iff.mp hst)
    rw [line_unique hl, Line.Readable, hlength] at hreadable
    omega

end RandomAccess.Source

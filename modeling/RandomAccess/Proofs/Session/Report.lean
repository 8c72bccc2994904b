import RandomAccess.Proofs.Machine.Statistics
import RandomAccess.Proofs.Session.Message
import RandomAccess.Proofs.Tape.RoundTrip

/-!
# What a session prints

A session prints lines about the machine that it executed: all values in decimal on the first one, unless
they go to a file, and then the statistics, if they are wanted. These tell the number of executed
instructions, the number of registers in use, and for each instruction that was executed how often.
-/

namespace RandomAccess

variable {m : Machine} {a : CommandLine.Arguments} {r : Result}

/-! ## Commands in the statistics -/

theorem Instruction.Sourced.oneLine_body {i : Instruction} (h : i.Sourced) : OneLine i.body := by
  have hop : OneLine i.opcode.mnemonic := (inked_mnemonic i.opcode).oneLine
  unfold body
  split
  · exact hop
  · refine hop.next (by decide) ?_
    unfold argument
    cases ho : i.operand with
    | none => exact .ofList (l := []) nofun
    | some o => exact (h.operand o ho).inked.oneLine

/-- The counts are kept by the index and the text of an instruction. -/
theorem Machine.Recorded.exists_command {l : Ledger} (h : m.Recorded l) {e : String × Nat}
    (he : e ∈ m.trace.counts) : ∃ (n : Nat) (i : Instruction), m.program.instructions[n]? = some i ∧
      e.1 = toString n ++ " " ++ i.body := by
  have hkey : e.1 ∈ l.completed.eraseDups.map m.program.keyAt := h.keys ▸ List.mem_map_of_mem he
  obtain ⟨n, hn, hkey⟩ := List.mem_map.mp hkey
  have hi := Array.getElem?_eq_getElem (h.stored n (List.mem_eraseDups.mp hn))
  refine ⟨n, _, hi, ?_⟩
  rw [← hkey, Program.keyAt_eq hi, Machine.key, Numeral.text_eq_toString]
  rfl

namespace Session

/-! ## The lines -/

/-- The lines of the statistics. -/
def tally (executed used : Nat) (counts : List (String × Nat)) : List String :=
  ("Всего команд выполнено: " ++ toString executed) :: ("Использовано регистров: " ++ toString used) ::
    "Статистика выполненных команд:" :: counts.map fun e => e.1 ++ " " ++ toString e.2

theorem statistics_eq (t : Trace) :
    statistics t = Text.unlines (tally t.executed (t.used.getD 0) t.counts) := by
  have hheading : "Статистика выполненных команд:" ++ "\n" = "Статистика выполненных команд:\n" := by
    decide +kernel
  have hcounts : String.join (t.counts.map fun e => e.1 ++ " " ++ toString e.2 ++ "\n") =
      Text.unlines (t.counts.map fun e => e.1 ++ " " ++ toString e.2) := by
    rw [Text.unlines, List.map_map]
    rfl
  unfold statistics tally
  change _ ++ String.join (t.counts.map fun e => e.1 ++ " " ++ toString e.2 ++ "\n") = _
  rw [hcounts, Text.unlines_cons, Text.unlines_cons, Text.unlines_cons, ← hheading]
  simp only [String.append_assoc]

/-- The lines that a session prints about the machine that it executed. -/
def printedLines (a : CommandLine.Arguments) (m : Machine) : List String :=
  (if given a.output = none then [" ".intercalate (m.output.values.toList.map toString)] else []) ++
    if a.notrace then [] else tally m.steps m.registers.used m.trace.counts

theorem oneLine_of_mem_tally {executed used : Nat} {counts : List (String × Nat)}
    (h : ∀ e ∈ counts, OneLine e.1) : ∀ l ∈ tally executed used counts, OneLine l := by
  intro l hl
  simp only [tally, List.mem_cons, List.mem_map] at hl
  rcases hl with rfl | rfl | rfl | ⟨e, he, rfl⟩
  · exact .append (.ofList (by decide)) (oneLine_nat executed)
  · exact .append (.ofList (by decide)) (oneLine_nat used)
  · exact .ofList (by decide)
  · exact (h e he).next (by decide) (oneLine_nat e.2)

theorem oneLine_of_mem_printedLines (h : ∀ e ∈ m.trace.counts, OneLine e.1) :
    ∀ l ∈ printedLines a m, OneLine l := by
  intro l hl
  rcases List.mem_append.mp hl with hl | hl
  · split at hl
    · rw [List.mem_singleton.mp hl, ← Numeral.text_eq_toString]
      refine .intercalate (.ofList (by decide)) fun s hs => ?_
      obtain ⟨v, -, rfl⟩ := List.mem_map.mp hs
      exact oneLine_numeral v
    · cases hl
  · split at hl
    · cases hl
    · exact oneLine_of_mem_tally h l hl

/-! ## The report -/

/-- The statistics are up to date. -/
structure Tallied (m : Machine) : Prop where
  executed : m.trace.executed = m.steps
  used : m.trace.used = some m.registers.used

theorem report_eq (hr : m.result = some r) (hv : ∀ v ∈ m.output.values, Numeral.writable v = true)
    (ht : Tallied m) : report a m =
      exit (if r.isFault then 1 else 0) (Text.unlines (printedLines a m))
        (if r.isFault then "Error: " ++ r.text ++ "\n" else "") := by
  have hvalues : valuesLine m.output.values.toList =
      .ok (Text.unlines [" ".intercalate (m.output.values.toList.map toString)]) := by
    rw [valuesLine_of_writable fun v hmem => hv v (Array.mem_toList_iff.mp hmem)]
    simp
  have hstatistics : statistics m.trace = Text.unlines (tally m.steps m.registers.used m.trace.counts) := by
    rw [statistics_eq, ht.executed, ht.used]
    rfl
  unfold report printedLines
  rw [Text.unlines_append, hvalues, hstatistics]
  cases given a.output <;> cases a.notrace <;> cases hf : r.isFault <;> simp [hr, hf]

end Session
end RandomAccess

import RandomAccess.Proofs.Machine.Delivery
import RandomAccess.Proofs.Machine.Replay
import RandomAccess.Proofs.Session.Report

/-!
# What a session reports and delivers

A session that executes a program loads the program and then the input before it opens the file for the
output. If one of them is refused, the session says so and leaves no trace. Else it delivers all that the
run wrote, and its exit code tells whether the run halted.
-/

namespace RandomAccess

open Grammar (Overlong)

theorem Program.FirstOffence.ne_digitLimit {lines : List (List Char)} {e : LoadError}
    (h : FirstOffence lines e) (hn : ∀ line ∈ lines, ∀ n, ¬ Overlong (Text.trim line) n)
    (x : DigitLimitError) : e ≠ .digitLimit x := by
  cases h with
  | line hlines _ _ ho =>
      cases ho with
      | overlong hx => exact absurd hx (hn _ (by simp [hlines]) _)
      | malformed | labelWaiting | twoLabels | duplicateLabel => simp
  | danglingLabel | undefinedTag => simp

namespace Session

open CommandLine

variable {files : Files} {a : Arguments} {source words : List Char} {name : String} {p : Program}
  {t : InputTape} {fuel : Nat}

/-! ## What is asked for -/

/-- The arguments ask for the execution of a program with this source, on a tape with these words, and the
file for the output can be created. -/
structure Asks (files : Files) (a : Arguments) (source words : List Char) : Prop where
  action : a.action = "execute"
  silent : a.debug = false
  program : readText files a.path = .ok source
  input : ∀ name, given a.input = some name → readText files name = .ok words
  noInput : given a.input = none → words = []
  output : ∀ name, given a.output = some name → files.canCreate name = true

/-- Program and tape are loaded. -/
structure Loads (source words : List Char) (p : Program) (t : InputTape) : Prop where
  program : Program.ofLines (Text.lines source) = .ok p
  tape : InputTape.ofText words = .ok t

/-- The run of the program with no file for its output. -/
def bareRun (fuel : Nat) (a : Arguments) (p : Program) (t : InputTape) : Execution :=
  (Machine.new p t).execute fuel { limit := a.limit }

/-- The run ends, and no number in the source or in the registers is too long for a numeral. -/
structure Tractable (fuel : Nat) (a : Arguments) (source words : List Char) : Prop where
  lines : ∀ line ∈ Text.lines source, ∀ n, ¬ Overlong (Text.trim line) n
  registers : ∀ p t, Loads source words p t → (Machine.new p t).Moderate { limit := a.limit }
  ends : ∀ p t, Loads source words p t → (bareRun fuel a p t).stop ≠ .outOfFuel

/-! ## Loading -/

theorem readProgram_of_ok (hr : readText files name = .ok source)
    (h : Program.ofLines (Text.lines source) = .ok p) : readProgram files name = .ok p := by
  rw [readProgram, hr]
  simp only [bind, Except.bind, h]
  rfl

theorem readProgram_of_error {e : LoadError} (hr : readText files name = .ok source)
    (h : Program.ofLines (Text.lines source) = .error e) (he : ∀ x, e ≠ .digitLimit x) :
    readProgram files name = .error (.reported e.message) := by
  rw [readProgram, hr]
  simp only [bind, Except.bind, h]
  cases e with
  | digitLimit x => exact absurd rfl (he x)
  | _ => rfl

theorem Asks.inputTape_eq (h : Asks files a source words) :
    inputTape files a = (InputTape.ofText words).mapError fun e => .reported e.message := by
  unfold inputTape
  split
  · rename_i name hname
    rw [readTape, h.input name hname]
    simp only [bind, Except.bind]
    cases InputTape.ofText words <;> rfl
  · rename_i hname
    rw [h.noInput hname]
    rfl

theorem Asks.execute_of_loads (h : Asks files a source words) (hl : Loads source words p t) :
    execute fuel files a = .ok (runProgram fuel a p t) := by
  rw [execute, readProgram_of_ok h.program hl.program, h.inputTape_eq, hl.tape]
  simp only [Except.mapError, bind, Except.bind]
  split
  · rename_i name hname
    simp only [h.output name hname]
    rfl
  · rfl

/-- What is not loaded is reported, and the output is not touched. -/
theorem Asks.execute_of_refused (h : Asks files a source words) (fuel : Nat)
    (hn : ∀ line ∈ Text.lines source, ∀ n, ¬ Overlong (Text.trim line) n)
    (hl : ¬ ∃ p t, Loads source words p t) :
    ∃ message, OneLine message ∧ execute fuel files a = .error (.reported message) := by
  cases hp : Program.ofLines (Text.lines source) with
  | error e =>
      have ho := Program.firstOffence_of_ofLines hp
      refine ⟨e.message, ho.oneLine fun _ => Text.newline_notMem_of_mem_lines, ?_⟩
      rw [execute, readProgram_of_error h.program hp (ho.ne_digitLimit hn)]
      rfl
  | ok p =>
      cases ht : InputTape.ofText words with
      | error e =>
          refine ⟨e.message, InputTape.oneLine_of_ofText ht, ?_⟩
          rw [execute, readProgram_of_ok h.program hp, h.inputTape_eq, ht]
          rfl
      | ok t => exact absurd ⟨p, t, hp, ht⟩ hl

/-! ## The run -/

/-- The run ended with the result `r`, and all that it wrote has numerals. -/
structure Concluded (fuel : Nat) (a : Arguments) (p : Program) (t : InputTape) (r : Result) : Prop where
  silent : a.debug = false
  stop : (bareRun fuel a p t).stop = .finished
  result : (bareRun fuel a p t).machine.result = some r
  receivable : (bareRun fuel a p t).machine.Receivable none

theorem Tractable.concluded (hw : Tractable fuel a source words) (hl : Loads source words p t)
    (ha : a.debug = false) : ∃ r, Concluded fuel a p t r := by
  have horder := Machine.Orderly.new_ahead hl.program t
  have hm := hw.registers p t hl
  have hx := Machine.execute_finished horder (by simp [Machine.new]) hm rfl (hw.ends p t hl)
  obtain ⟨r, hr⟩ := Machine.execute_result hx
  exact ⟨r, ha, hx, hr, Machine.execute_receivable horder hm (by simp [Machine.new]) hx⟩

variable {r : Result}

/-- The file for the output changes nothing about the run, and it is closed in the end. -/
theorem Concluded.executed_eq (h : Concluded fuel a p t r) :
    executed fuel a p t = { bareRun fuel a p t with
      machine := (bareRun fuel a p t).machine.mapOutput fun u =>
        if (given a.output).isSome then u.filed.close else u } := by
  have hoptions : runOptions a = { limit := a.limit } := by rw [runOptions, h.silent]
  cases ho : (given a.output).isSome with
  | true =>
      have hfiled := Machine.execute_new_filed h.stop h.receivable
      simp only [executed, outputTape, hoptions, ho, if_true, hfiled]
      rfl
  | false =>
      have hsink := (Machine.kept_unrefused.execute fuel { limit := a.limit } (.new p t)).sink
      simp only [executed, outputTape, hoptions, ho, Bool.false_eq_true, if_false,
        OutputTape.close_of_sink_none hsink]
      rfl

theorem Loads.recorded (hl : Loads source words p t) (fuel : Nat) (a : Arguments) :
    ∃ l, (bareRun fuel a p t).machine.Recorded l ∧ ((bareRun fuel a p t).stop = .finished →
      (bareRun fuel a p t).machine.trace.used = some (bareRun fuel a p t).machine.registers.used) := by
  have hready := Program.Ready.ofLines hl.program
  have hnew : (Machine.new p t).Recorded {} := Operation.reset_recorded hready.writable
  exact ⟨_, hnew.execute fuel { limit := a.limit }⟩

theorem Concluded.tallied (h : Concluded fuel a p t r) (hl : Loads source words p t) :
    Tallied (bareRun fuel a p t).machine := by
  obtain ⟨l, hrec, hused⟩ := hl.recorded fuel a
  exact ⟨hrec.executed, hused h.stop⟩

/-- What comes of a run that ended. -/
theorem Concluded.runProgram_eq (h : Concluded fuel a p t r) (hl : Loads source words p t) :
    runProgram fuel a p t =
      { exit (if r.isFault then 1 else 0) (Text.unlines (printedLines a (bareRun fuel a p t).machine))
          (if r.isFault then "Error: " ++ r.text ++ "\n" else "") with
        written := (given a.output).map fun name =>
          (name, Text.unlines ((bareRun fuel a p t).machine.output.values.toList.map toString)) } := by
  have hprinted : (bareRun fuel a p t).printed = "" := Machine.execute_printed _ _ rfl
  have hstop := h.stop
  rw [← report_eq h.result h.receivable.writable (h.tallied hl), runProgram, h.executed_eq]
  generalize bareRun fuel a p t = e at hprinted hstop ⊢
  obtain ⟨m, text, stop⟩ := e
  dsimp only at hprinted hstop
  subst hstop hprinted
  -- the report looks at the values of the tape and not at its sink
  have hreport : report a (m.mapOutput fun u => if (given a.output).isSome then u.filed.close else u) =
      report a m := by
    cases ho : (given a.output).isSome <;> rfl
  simp only [conclude, hreport, printing, String.empty_append]
  cases ho : given a.output <;> rfl

theorem Loads.oneLine (hl : Loads source words p t)
    (hr : (bareRun fuel a p t).machine.result = some r) : OneLine r.text := by
  have hsound := Program.Sound.ofLines hl.program
  have hadmits := ((Machine.kept_admissible hsound).execute fuel { limit := a.limit } (.new p t {})).faulted
  have hunrefused := (Machine.kept_unrefused.execute fuel { limit := a.limit } (.new p t)).faulted
  refine Result.oneLine ?_
  rintro index f n rfl
  exact ⟨(hadmits index f n hr).unknownLabel, hunrefused index f n hr⟩

/-- Every count in the statistics is about an instruction of the program. -/
theorem Loads.exists_command (hl : Loads source words p t) {e : String × Nat}
    (he : e ∈ (bareRun fuel a p t).machine.trace.counts) :
    ∃ (n : Nat) (i : Instruction), p.instructions[n]? = some i ∧ e.1 = toString n ++ " " ++ i.body := by
  obtain ⟨l, hrec, -⟩ := hl.recorded fuel a
  have hp : (bareRun fuel a p t).machine.program = p :=
    (Machine.kept_program p).execute fuel { limit := a.limit } Machine.reset_program
  rw [← hp]
  exact hrec.exists_command he

/-! ## Sessions -/

/-- The session ends with one error, which it tells on one line. -/
def Fails (s : Session) : Prop :=
  s.ending = .exit 1 ∧ ∃ message, OneLine message ∧ s.errors = "Error: " ++ message ++ "\n"

/-- The session delivers what the run of `p` left on the machine `m`. The values are in a file, which is the
sink of the closed tape `u`, or on the first line that the session prints. The statistics that it prints count
each executed instruction by its index and text, and the counts add up to the number that they give. -/
structure Delivers (s : Session) (a : Arguments) (p : Program) (m : Machine) (u : OutputTape) : Prop where
  file : ∀ name, given a.output = some name →
    s.written = some (name, Text.unlines (m.output.values.toList.map toString)) ∧
      u.sink = some
        { content := Text.unlines (m.output.values.toList.map toString), owned := true, closed := true }
  noFile : given a.output = none → s.written = none
  printed : s.printed = Text.unlines (printedLines a m)
  oneLine : ∀ l ∈ printedLines a m, OneLine l
  commands : ∀ e ∈ m.trace.counts, ∃ (n : Nat) (i : Instruction),
    p.instructions[n]? = some i ∧ e.1 = toString n ++ " " ++ i.body
  counts : (m.trace.counts.map Prod.snd).sum = m.steps

theorem Concluded.delivers (h : Concluded fuel a p t r) (hl : Loads source words p t) :
    (runProgram fuel a p t).Delivers a p (bareRun fuel a p t).machine
      (executed fuel a p t).machine.output := by
  rw [h.runProgram_eq hl, h.executed_eq]
  refine ⟨fun name hname => ?_, fun hname => ?_, rfl, ?_, fun e => hl.exists_command, ?_⟩
  · simp only [hname, Option.isSome_some, if_true, Option.map_some, true_and]
    rfl
  · simp only [hname, Option.map_none]
  · refine oneLine_of_mem_printedLines fun e he => ?_
    obtain ⟨n, i, hi, hkey⟩ := hl.exists_command he
    have hsourced : i.Sourced :=
      Program.sourced_of_ofLines hl.program i (Array.mem_toList_iff.mpr (Array.mem_of_getElem? hi))
    rw [hkey]
    exact (oneLine_nat n).next (by decide) hsourced.oneLine_body
  · obtain ⟨l, hrec, -⟩ := hl.recorded fuel a
    exact hrec.total

theorem Concluded.exits {n : Nat} (h : Concluded fuel a p t (.halted n)) (hl : Loads source words p t) :
    (runProgram fuel a p t).ending = .exit 0 ∧ (runProgram fuel a p t).errors = "" := by
  rw [h.runProgram_eq hl]
  exact ⟨rfl, rfl⟩

theorem Concluded.fails {index : Option Int} {f : Fault} {n : Nat}
    (h : Concluded fuel a p t (.faulted index f n)) (hl : Loads source words p t) :
    (runProgram fuel a p t).Fails := by
  rw [h.runProgram_eq hl]
  exact ⟨rfl, _, hl.oneLine h.result, rfl⟩

theorem Loads.unique {p' : Program} {t' : InputTape} (h : Loads source words p t)
    (h' : Loads source words p' t') : p' = p ∧ t' = t := by
  have hp := h'.program
  have ht := h'.tape
  rw [h.program] at hp
  rw [h.tape] at ht
  cases hp
  cases ht
  exact ⟨rfl, rfl⟩

section

variable {argv : List String} {s : Session}

theorem run_of_ok (hargs : Arguments.parse argv = .ok a) (ha : a.action = "execute")
    (he : execute fuel files a = .ok s) : run fuel files argv = s := by
  simp only [run, hargs, ha, he]

theorem run_of_error (hargs : Arguments.parse argv = .ok a) (ha : a.action = "execute") {e : FileError}
    (he : execute fuel files a = .error e) : run fuel files argv = e.session := by
  simp only [run, hargs, ha, he]

/-- A session that executes a program exits with zero if program and input are loaded and the run halts, and
else reports one error. Unless both are loaded, it prints nothing and writes no file. If they are, all that
the run wrote is delivered in order and in decimal, and the counts that are printed add up to the number of
executed instructions that is printed. -/
theorem run_delivers (hargs : Arguments.parse argv = .ok a) (h : Asks files a source words)
    (hw : Tractable fuel a source words) (hs : s = run fuel files argv) :
    (s.ending = .exit 0 ↔ ∃ p t n, Loads source words p t ∧
      (bareRun fuel a p t).machine.result = some (.halted n)) ∧
    (s.ending = .exit 0 → s.errors = "") ∧ (s.ending ≠ .exit 0 → s.Fails) ∧
    ((¬ ∃ p t, Loads source words p t) → s.printed = "" ∧ s.written = none) ∧
    ∀ p t, Loads source words p t →
      s.Delivers a p (bareRun fuel a p t).machine (executed fuel a p t).machine.output := by
  by_cases hloads : ∃ p t, Loads source words p t
  · obtain ⟨p, t, hl⟩ := hloads
    obtain ⟨r, hr⟩ := hw.concluded hl h.silent
    rw [run_of_ok hargs h.action (h.execute_of_loads hl)] at hs
    subst hs
    have hdelivers (p' : Program) (t' : InputTape) (hl' : Loads source words p' t') :
        (runProgram fuel a p t).Delivers a p' (bareRun fuel a p' t').machine
          (executed fuel a p' t').machine.output := by
      obtain ⟨rfl, rfl⟩ := hl.unique hl'
      exact hr.delivers hl
    cases r with
    | halted n =>
        obtain ⟨hend, herr⟩ := hr.exits hl
        exact ⟨⟨fun _ => ⟨p, t, n, hl, hr.result⟩, fun _ => hend⟩, fun _ => herr, fun hne => absurd hend hne,
          fun hnone => absurd ⟨p, t, hl⟩ hnone, hdelivers⟩
    | faulted index f n =>
        have hfails := hr.fails hl
        have hend : (runProgram fuel a p t).ending ≠ .exit 0 := by simp [hfails.1]
        refine ⟨⟨fun hzero => absurd hzero hend, ?_⟩, fun hzero => absurd hzero hend, fun _ => hfails,
          fun hnone => absurd ⟨p, t, hl⟩ hnone, hdelivers⟩
        rintro ⟨p', t', n', hl', hn⟩
        obtain ⟨rfl, rfl⟩ := hl.unique hl'
        cases hr.result.symm.trans hn
  · obtain ⟨message, hm, he⟩ := h.execute_of_refused fuel hw.lines hloads
    rw [run_of_error hargs h.action he] at hs
    subst hs
    refine ⟨⟨nofun, fun ⟨p, t, n, hl, _⟩ => absurd ⟨p, t, hl⟩ hloads⟩, nofun, fun _ => ⟨rfl, message, hm, rfl⟩,
      fun _ => ⟨rfl, rfl⟩, fun p t hl => absurd ⟨p, t, hl⟩ hloads⟩

end

/-- Copies two numbers. -/
def copyingSource : String := "read 1\nwrite 1\nread 1\nwrite 1"

/-- The tape has only one number. -/
def copying : Files where
  contents := [("copy.ram", copyingSource.toUTF8), ("tape", "7".toUTF8)]

def copyingArguments : Arguments := { action := "execute", path := "copy.ram", input := some "tape" }

def copyingProgram : Program :=
  .ofInstructions [⟨.read, some (.direct 1), none⟩, ⟨.write, some (.direct 1), none⟩,
    ⟨.read, some (.direct 1), none⟩, ⟨.write, some (.direct 1), none⟩]

theorem copying_loads : Loads copyingSource.toList "7".toList copyingProgram (.ofList [7]) :=
  ⟨by decide +kernel, by decide +kernel⟩

theorem copying_moderate (o : RunOptions) : (Machine.new copyingProgram (.ofList [7])).Moderate o := by
  intro n hn k
  have hn : n ≤ 3 := by
    by_contra h
    have hrunning := (hn 3 (by omega)).running
    have hfinished : ((Machine.new copyingProgram (.ofList [7])).ahead 3).finished = true := by decide +kernel
    rw [hfinished] at hrunning
    cases hrunning
  interval_cases n <;> exact Registers.writable_cell (by decide +kernel) k

theorem copying_tractable (h : (bareRun 9 a copyingProgram (.ofList [7])).stop ≠ .outOfFuel) :
    Tractable 9 a copyingSource.toList "7".toList := by
  refine ⟨fun line hline n hn => ?_, fun p t hl => ?_, fun p t hl => ?_⟩
  · have hread : ∀ line ∈ Text.lines copyingSource.toList,
        (Source.Statement.read (Text.trim line)).isOk = true := by decide +kernel
    have hok := hread line hline
    rw [Program.overlong_iff.mp hn] at hok
    cases hok
  · obtain ⟨rfl, rfl⟩ := copying_loads.unique hl
    exact copying_moderate _
  · obtain ⟨rfl, rfl⟩ := copying_loads.unique hl
    exact h

/-- The number that was copied before the fault is in the file, or on the first line if there is none. -/
theorem run_delivers_copying :
    (∃ s, s = run 9 copying ["execute", "copy.ram", "-i", "tape", "-o", "out"] ∧ s.Fails ∧
      s.written = some ("out", "7\n") ∧
      s.printed = "Всего команд выполнено: 2\nИспользовано регистров: 2\n" ++
        "Статистика выполненных команд:\n0 READ 1 1\n1 WRITE 1 1\n") ∧
    ∃ s, s = run 9 copying ["execute", "copy.ram", "-i", "tape", "--notrace", "--max-iterations", "2"] ∧
      s.Fails ∧ s.written = none ∧ s.printed = "7\n" := by
  constructor
  · have hargs : Arguments.parse ["execute", "copy.ram", "-i", "tape", "-o", "out"] =
        .ok { copyingArguments with output := some "out" } := by decide +kernel
    have h : Asks copying { copyingArguments with output := some "out" } copyingSource.toList "7".toList :=
      ⟨rfl, rfl, by decide +kernel, by rintro name ⟨⟩; decide +kernel, nofun, by rintro name ⟨⟩; decide +kernel⟩
    obtain ⟨-, -, hfails, -, hdelivers⟩ := run_delivers hargs h (copying_tractable (by decide +kernel)) rfl
    have hd := hdelivers _ _ copying_loads
    refine ⟨_, rfl, hfails (by decide +kernel), ?_, ?_⟩
    · rw [(hd.file "out" rfl).1]
      decide +kernel
    · rw [hd.printed]
      decide +kernel
  · have hargs : Arguments.parse ["execute", "copy.ram", "-i", "tape", "--notrace", "--max-iterations", "2"] =
        .ok { copyingArguments with notrace := true, limit := some 2 } := by decide +kernel
    have h : Asks copying { copyingArguments with notrace := true, limit := some 2 } copyingSource.toList
        "7".toList :=
      ⟨rfl, rfl, by decide +kernel, by rintro name ⟨⟩; decide +kernel, nofun, nofun⟩
    obtain ⟨-, -, hfails, -, hdelivers⟩ := run_delivers hargs h (copying_tractable (by decide +kernel)) rfl
    have hd := hdelivers _ _ copying_loads
    refine ⟨_, rfl, hfails (by decide +kernel), hd.noFile rfl, ?_⟩
    rw [hd.printed]
    decide +kernel

end Session
end RandomAccess

import RandomAccess.Proofs.Machine.Call

/-!
# A fault changes nothing

A step that ends a run with a fault leaves the machine as it found it, but for the value that the sink of
the output tape refused. A run that is over stays over: neither steps nor executions change it.
-/

namespace RandomAccess.Machine

open Abstract

variable {m m' : Machine}

/-! ## Runs that are over -/

/-- Nothing has happened between the two machines, but for what an execution notes about the
registers. -/
structure Same (m m' : Machine) : Prop where
  program : m'.program = m.program
  registers : m'.registers = m.registers
  input : m'.input = m.input
  output : m'.output = m.output
  ip : m'.ip = m.ip
  steps : m'.steps = m.steps
  result : m'.result = m.result
  counts : m'.trace.counts = m.trace.counts
  executed : m'.trace.executed = m.trace.executed

theorem Same.refl (m : Machine) : m.Same m := ⟨rfl, rfl, rfl, rfl, rfl, rfl, rfl, rfl, rfl⟩

theorem Same.trans {m'' : Machine} (h : m.Same m') (h' : m'.Same m'') : m.Same m'' where
  program := h'.program.trans h.program
  registers := h'.registers.trans h.registers
  input := h'.input.trans h.input
  output := h'.output.trans h.output
  ip := h'.ip.trans h.ip
  steps := h'.steps.trans h.steps
  result := h'.result.trans h.result
  counts := h'.counts.trans h.counts
  executed := h'.executed.trans h.executed

theorem Same.finished (h : m.Same m') (hm : m.finished = true) : m'.finished = true := by
  rwa [Machine.finished, h.result]

theorem execute_of_finished (h : m.finished = true) (fuel : Nat) (o : RunOptions) :
    m.execute fuel o = ⟨(m.openTrace o.window).closeTrace o.window, "" ++ m.epilogue o, .finished⟩ := by
  have hl : (m.openTrace o.window).loop o fuel "" = ⟨m.openTrace o.window, "", .finished⟩ :=
    loop_of_finished h
  simp only [execute, hl]
  rfl

/-- A call to a machine whose run is over returns, and nothing happens. -/
theorem run_of_finished (h : m.finished = true) (c : Call) :
    (c.run m).2 = .finished ∧ m.Same (c.run m).1 := by
  cases c with
  | step =>
      rw [Call.run, step_of_finished h]
      exact ⟨rfl, .refl m⟩
  | execute fuel o =>
      rw [Call.run, execute_of_finished h]
      exact ⟨rfl, rfl, rfl, rfl, rfl, rfl, rfl, rfl, rfl, rfl⟩

theorem drive_of_finished (h : m.finished = true) (calls : List Call) : m.Same (m.drive calls) := by
  induction calls generalizing m with
  | nil => exact .refl m
  | cons c calls ih =>
      have hc := (run_of_finished h c).2
      exact hc.trans (ih (hc.finished h))

/-! ## Faults -/

theorem Blocked.kind_ne {f : Fault} (h : m.Blocked f) : f.kind ≠ .outputRefused := by
  cases h with
  | lost _ => nofun
  | meets _ hm => cases hm <;> nofun

/-- Where a step ends the run with a fault, the machine is as before but for its result, and for the
value of the instruction if the sink refused it. -/
theorem Outcome.faulted_eq {index : Option Int} {f : Fault} {n : Nat} (h : m.Outcome m' none)
    (hm : m.finished = false) (hr : m'.result = some (.faulted index f n)) :
    f.kind ≠ .outputRefused ∧ m' = m.fault f ∨
      f.kind = .outputRefused ∧ ∃ k i o v, m.Fetches k i ∧ i.opcode = .write ∧ i.operand = some o ∧
        Denotes m.registers.cell o v ∧ m' = { m with output := m.output.append v }.fault f := by
  cases h with
  | idle h =>
      rw [hm] at h
      cases h
  | faulted h hb hw =>
      cases hr
      exact Or.inl ⟨hb.kind_ne, rfl⟩
  | refused hf hc ht =>
      cases hr
      obtain ⟨hk, rfl⟩ := ht.of_fault
      cases hc with
      | write hi ho hv _ => exact Or.inr ⟨hk, _, _, _, _, hf, hi, ho, hv, rfl⟩
  | completed hf hc hp hw =>
      rw [after_result, result_eq_none hm] at hr
      split at hr <;> cases hr

/-- A step that ends a run with a fault changes neither registers, input, pointer, count of steps nor
statistics, and of the output tape only the values, by the one value that the sink refused. From then on
every call returns the same result and nothing happens. -/
theorem step_faulted {index : Option Int} {f : Fault} {n : Nat} (hm : m.finished = false)
    (hs : m.step = (m', none)) (hr : m'.result = some (.faulted index f n)) :
    m'.registers = m.registers ∧ m'.input = m.input ∧ m'.ip = m.ip ∧ m'.steps = m.steps ∧
      m'.trace = m.trace ∧ (f.kind ≠ .outputRefused → m'.output = m.output) ∧
      (f.kind = .outputRefused → m'.output.sink = m.output.sink ∧
        ∃ k i o v, m.Fetches k i ∧ i.opcode = .write ∧ i.operand = some o ∧
          Denotes m.registers.cell o v ∧ m'.output.values = m.output.values.push v) ∧
      ∀ (calls : List Call) (c : Call),
        (c.run (m'.drive calls)).2 = .finished ∧ m'.Same (c.run (m'.drive calls)).1 := by
  have ho := m.step_outcome
  rw [hs] at ho
  have hover : m'.finished = true := by simp [Machine.finished, hr]
  have hcalls (calls : List Call) (c : Call) :
      (c.run (m'.drive calls)).2 = .finished ∧ m'.Same (c.run (m'.drive calls)).1 := by
    have hd := drive_of_finished hover calls
    obtain ⟨hc, hsame⟩ := run_of_finished (hd.finished hover) c
    exact ⟨hc, hd.trans hsame⟩
  rcases ho.faulted_eq hm hr with ⟨hk, rfl⟩ | ⟨hk, k, i, o, v, hf, hi, hop, hv, rfl⟩
  · exact ⟨rfl, rfl, rfl, rfl, rfl, fun _ => rfl, fun h => absurd h hk, hcalls⟩
  · exact ⟨rfl, rfl, rfl, rfl, rfl, fun h => absurd hk h,
      fun _ => ⟨rfl, k, i, o, v, hf, hi, hop, hv, rfl⟩, hcalls⟩

/-- Writes a number to a sink that takes nothing. -/
def refusedWrite : Machine :=
  Machine.new { instructions := #[{ opcode := .write, operand := some (.constant 5) }] } {}
    { sink := some { capacity := some 0 } }

theorem step_faulted_refusedWrite :
    refusedWrite.step.1.result = some (.faulted (some 0) (.outputRefused "disk full") 0) ∧
      refusedWrite.step.1.output.sink = refusedWrite.output.sink ∧
      ∀ (calls : List Call) (c : Call), (c.run (refusedWrite.step.1.drive calls)).2 = .finished ∧
        refusedWrite.step.1.Same (c.run (refusedWrite.step.1.drive calls)).1 := by
  have hr : refusedWrite.step.1.result = some (.faulted (some 0) (.outputRefused "disk full") 0) := by
    decide +kernel
  have hs : refusedWrite.step = (refusedWrite.step.1, none) := by decide +kernel
  obtain ⟨-, -, -, -, -, -, hsink, hcalls⟩ := step_faulted (m := refusedWrite) (by decide +kernel) hs hr
  exact ⟨hr, (hsink rfl).1, hcalls⟩

end RandomAccess.Machine

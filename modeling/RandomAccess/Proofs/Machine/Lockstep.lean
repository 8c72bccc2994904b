import RandomAccess.Growth.Measure
import RandomAccess.Proofs.Machine.Consumption
import RandomAccess.Proofs.Machine.Limit
import RandomAccess.Proofs.Machine.Refinement
import RandomAccess.Proofs.Machine.Statistics
import RandomAccess.Proofs.Machine.Transitions

/-!
# Executions from counted transitions

The rounds of an execution are the transitions of the abstract machine, one for one. So a run of the
abstract machine that comes to its end gives the execution of a new machine: its result with the number of
steps, what is on its tapes and in its registers, and its statistics.
-/

namespace RandomAccess

open Abstract

/-! ## How an execution ends -/

namespace Execution

/-- The execution has ended, and the program has come to its end. -/
structure Halts (e : Execution) (steps : Nat) (output : List Int) (position : Nat) : Prop where
  stop : e.stop = .finished
  result : e.machine.result = some (.halted steps)
  output : e.machine.output.values.toList = output
  position : e.machine.input.position = position
  executed : e.machine.trace.executed = steps

/-- The execution has ended with a fault at an instruction. -/
structure Faults (e : Execution) (index : Nat) (kind : Fault.Kind) (steps : Nat) (output : List Int) :
    Prop where
  stop : e.stop = .finished
  result : ∃ f : Fault, f.kind = kind ∧ e.machine.result = some (.faulted (some (index : Int)) f steps)
  output : e.machine.output.values.toList = output

/-- The execution on a tape has ended in its round `n + 1`, in the state `b` of the abstract machine. -/
structure Attains (e : Execution) (tape : List Int) (n : Nat) (b : State) : Prop where
  stop : e.stop = .finished
  represents : e.machine.Represents b
  result : e.machine.result = some (.halted (n + 1)) ∨
    ∃ i f, e.machine.result = some (.faulted i f n)
  controlled : e.machine.Controlled
  values : e.machine.input.values = tape.toArray
  position : e.machine.input.position ≤ tape.length
  executed : e.machine.trace.executed = e.machine.steps

end Execution

/-! ## Rounds beside transitions -/

namespace Machine

variable {p : Program} {m : Machine} {P : State → Prop} {a b : State} {n fuel : Nat} {tape : List Int}

/-- `n` transitions are `n` rounds, unless they meet a negative index. -/
theorem Simulates.leads (hp : p.Ready) (h : Simulates p m a) (hs : Leads p P n a)
    (hP : ∀ b, P b → b.status ≠ .faulted .invalidIndex) :
    m.Proceeds {} n ∧ ∃ b, P b ∧ Simulates p (m.ahead n) b := by
  induction hs generalizing m with
  | done ha => exact ⟨.zero m {}, _, ha, h⟩
  | next hab hs ih =>
      rcases h.transition hp.loaded.wellFormed hp.writable hab with ⟨m', hstep, h'⟩ | ⟨rfl, -⟩
      · obtain ⟨hproc, b, hb, hsim⟩ := ih h'
        have hm : m.step.1 = m' := congrArg Prod.fst hstep
        refine ⟨proceeds_succ.mpr ⟨⟨?_, rfl, ?_⟩, hm ▸ hproc⟩, b, hb, ?_⟩
        · rw [finished, h.result.mpr hab.running]
          rfl
        · rw [tracedStep_of_silent rfl, hstep]
        · rw [ahead, hm]
          exact hsim
      · exact absurd rfl (hP _ (hs.of_not_running (by simp [State.fault])))

theorem Same.represents {m' : Machine} (h : m.Same m') (hm : m.Represents b) : m'.Represents b where
  memory := h.registers ▸ hm.memory
  pointer := h.ip.trans hm.pointer
  unread := (congrArg InputTape.unread h.input).trans hm.unread
  output := h.output ▸ hm.output
  status := h.result ▸ hm.status

/-- An execution whose rounds end the run leaves the machine as they do, but for its notes. -/
theorem Proceeds.execute_same (h : m.Proceeds {} n) (hf : (m.ahead n).finished = true)
    (hfuel : n ≤ fuel) :
    (m.execute fuel).stop = .finished ∧ (m.ahead n).Same (m.execute fuel).machine := by
  obtain ⟨rest, rfl⟩ := Nat.exists_eq_add_of_le hfuel
  rw [execute_of_ended ((h.loop_eq rest "").trans (loop_of_finished hf))]
  exact ⟨rfl, .noted _ _ _⟩

/-- An execution of a new machine goes along with the abstract machine to the end of its run. -/
theorem execute_attains (hp : p.Ready) (hs : Leads p P (n + 1) (.start p tape []))
    (hP : ∀ b, P b → b.status ≠ .running ∧ b.status ≠ .faulted .invalidIndex) (hfuel : n + 1 ≤ fuel) :
    ∃ b, P b ∧ ((Machine.new p (.ofList tape)).execute fuel).Attains tape n b := by
  have hstart : Simulates p (Machine.new p (.ofList tape)) (.start p tape []) := .start rfl
  obtain ⟨hproc, b, hb, hsim⟩ := hstart.leads hp hs fun b hb => (hP b hb).2
  have hf : ((Machine.new p (.ofList tape)).ahead (n + 1)).finished = true := by
    rw [finished, Option.isSome_iff_ne_none]
    exact fun hn => (hP b hb).1 (hsim.result.mp hn)
  obtain ⟨hstop, hsame⟩ := hproc.execute_same hf hfuel
  have hresult := hproc.result hf
  have hvalues := ahead_values (Machine.new p (.ofList tape)) (n + 1)
  have hposition := ahead_position_le_size (m := Machine.new p (.ofList tape))
    (by rw [new_input]; exact Nat.zero_le _) (n + 1)
  rw [new_steps, Nat.zero_add, ← hsame.result] at hresult
  rw [new_input, ← hsame.input] at hvalues hposition
  have hrecorded := (Operation.reset_recorded (m := { program := p, input := .ofList tape })
    hp.writable).execute fuel {}
  exact ⟨b, hb, hstop, hsame.represents hsim.toRepresents, hresult,
    (kept_controlled.execute fuel {} ⟨reset_program.symm ▸ hp, .reset _⟩).2, hvalues, hposition,
    hrecorded.1.executed⟩

end Machine

/-! ## Ends of programs -/

namespace Execution.Attains

variable {e : Execution} {n k : Nat} {memory : Nat → Int} {tape unread output : List Int}

/-- The head of the tape stands behind the values that have been read. -/
theorem position_eq {b : State} {read : List Int} (h : e.Attains (read ++ unread) n b) (hu : b.unread = unread) :
    e.machine.input.position = read.length := by
  have hlen := congrArg List.length (h.represents.unread.trans hu)
  have hle := h.position
  rw [InputTape.unread, h.values, List.length_drop] at hlen
  rw [List.length_append] at hlen hle
  omega

/-- The end of the program is the end of an execution that halts. -/
theorem halts (read : List Int) (h : e.Attains (read ++ unread) n (.over memory unread output)) :
    e.Halts (n + 1) output read.length := by
  have hres := h.result.resolve_right fun ⟨i, f, hr⟩ => by
    have hst := h.represents.status
    rw [hr] at hst
    cases hst
  exact ⟨h.stop, hres, h.represents.output, h.position_eq rfl,
    h.executed.trans (h.controlled.halted _ hres).2.symm⟩

/-- A fault is the end of an execution that tells where it was met. The last round does not count as a
step. -/
theorem faults {kind : Fault.Kind}
    (h : e.Attains tape n ((State.before k memory unread output).fault kind)) :
    e.Faults k kind n output := by
  have hst := h.represents.status
  rcases h.result with hr | ⟨i, f, hr⟩
  · rw [hr] at hst
    cases hst
  · obtain rfl : some (k : Int) = i :=
      h.represents.pointer.symm.trans (h.controlled.faulted i f n hr).1
    rw [hr] at hst
    exact ⟨h.stop, ⟨f, Status.faulted.inj hst, hr⟩, h.represents.output⟩

end Execution.Attains

/-- The number of executed instructions is a figure of every execution that halts. -/
theorem Program.figure_of_halts {p : Program} {fuel steps position : Nat} {tape output : List Int}
    (h : ((Machine.new p (.ofList tape)).execute fuel).Halts steps output position) :
    p.figure fuel {} "commands_executed" tape = .ok (.number steps) := by
  have hs : p.statistics fuel {} tape =
      .ok ((Machine.new p (.ofList tape)).execute fuel).machine.trace := by
    simp only [statistics, h.stop, h.result]
    rfl
  rw [figure, hs, ← h.executed]
  rfl

end RandomAccess

import RandomAccess.Proofs.Machine.Consumption
import RandomAccess.Proofs.Machine.Output

/-!
# Replaying a run

A reset leaves of the run before it only what is on the tapes, and no run looks at the output tape. So
after a reset and with the input rewound a machine does what a new machine does, and its output comes
after the output that was there.
-/

namespace RandomAccess

/-! ## Earlier output -/

namespace OutputTape

/-- The tape with earlier values before its own. -/
def preceded (t : OutputTape) (old : Array Int) : OutputTape := { t with values := old ++ t.values }

theorem write_preceded (t : OutputTape) (old : Array Int) (v : Int) :
    (t.preceded old).write v = ((t.write v).1.preceded old, (t.write v).2) := by
  obtain ⟨values, sink⟩ := t
  have hpush : (old ++ values).push v = old ++ values.push v := Array.append_push.symm
  cases sink with
  | none => simp only [write, preceded, hpush]
  | some s =>
      cases hv : Numeral.writable v with
      | false => simp [write, preceded, hv]
      | true =>
          simp only [write, preceded, hv, hpush, Bool.not_true, Bool.false_eq_true, if_false]
          rcases s.write (line v) with (_ | _) | _ <;> rfl

end OutputTape

namespace Machine

variable {m m' : Machine} {p : Program} {values : Array Int}

/-- The machine with earlier values on its output tape. -/
def preceded (m : Machine) (old : Array Int) : Machine := { m with output := m.output.preceded old }

theorem execute_preceded (m : Machine) (old : Array Int) (fuel : Nat) (o : RunOptions) :
    (m.preceded old).execute fuel o =
      { m.execute fuel o with machine := (m.execute fuel o).machine.preceded old } :=
  execute_mapOutput (OutputTape.write_preceded · old) m fuel o

/-! ## What a run leaves behind -/

theorem reset_eq_new (m : Machine) : m.reset = Machine.new m.program m.input m.output := rfl

theorem new_rewind (p : Program) (input : InputTape) (output : OutputTape) :
    Operation.rewind.apply (Machine.new p input output) = Machine.new p input.rewind output := by
  unfold Machine.new reset
  dsimp only
  cases p.first <;> rfl

theorem new_preceded (p : Program) (input : InputTape) (old : Array Int) :
    (Machine.new p input).preceded old = Machine.new p input { values := old } := by
  have hempty : OutputTape.preceded {} old = { values := old } := by simp [OutputTape.preceded]
  rw [← hempty]
  exact new_mapOutput p input {} (·.preceded old)

theorem Outcome.program_eq {x : Option Failure} (ho : m.Outcome m' x) : m'.program = m.program := by
  cases ho with
  | completed => exact after_program
  | uncounted => exact perform_program
  | _ => rfl

/-- The machine has these values on its input tape and no sink. -/
structure Fed (m : Machine) (values : Array Int) : Prop where
  input : m.input.values = values
  sink : m.output.sink = none

theorem kept_fed (values : Array Int) : Kept fun m => m.Fed values where
  step m h := ⟨(step_values m).trans h.input, m.step_outcome.sink_eq_none h.sink⟩
  limit _ _ h := ⟨h.input, h.sink⟩
  openTrace _ _ h := ⟨h.input, h.sink⟩
  closeTrace _ _ h := ⟨h.input, h.sink⟩

theorem kept_program (p : Program) : Kept fun m => m.program = p where
  step m h := m.step_outcome.program_eq.trans h
  limit _ _ h := h
  openTrace _ _ h := h
  closeTrace _ _ h := h

theorem reset_fed (h : m.Fed values) : m.reset.Fed values := by
  refine ⟨?_, by simpa using h.sink⟩
  rw [reset_eq_new, new_input]
  exact h.input

end Machine

namespace Operation

variable {m : Machine} {values : Array Int}

/-- The operation brings in no other tape. -/
def KeepsTapes : Operation → Prop
  | mountInput _ | mountOutput _ => False
  | _ => True

theorem apply_fed (op : Operation) (hop : op.KeepsTapes) (h : m.Fed values) : (op.apply m).Fed values := by
  cases op with
  | call c => exact (Machine.kept_fed values).drive [c] h
  | reset => exact Machine.reset_fed h
  | offer x =>
      cases x with
      | program q => exact Machine.reset_fed (m := { m with program := q }) ⟨h.input, h.sink⟩
      | other => exact h
  | setRegister index value =>
      simp only [apply]
      split
      · exact ⟨h.input, h.sink⟩
      · exact h
  | rewind => exact ⟨h.input, h.sink⟩
  | mountInput | mountOutput => exact hop.elim

theorem apply_program (op : Operation) (hop : ∀ q, op ≠ .offer (.program q)) :
    (op.apply m).program = m.program := by
  cases op with
  | call c => exact (Machine.kept_program m.program).drive [c] rfl
  | reset => exact Machine.reset_program
  | offer x =>
      cases x with
      | program q => exact absurd rfl (hop q)
      | other => rfl
  | setRegister index value =>
      simp only [apply]
      split <;> rfl
  | rewind | mountInput | mountOutput => rfl

end Operation

namespace Machine

variable {m : Machine} {p : Program} {values : Array Int}

theorem undergo_fed (ops : List Operation) (hops : ∀ op ∈ ops, op.KeepsTapes) (h : m.Fed values) :
    (m.undergo ops).Fed values := by
  induction ops generalizing m with
  | nil => exact h
  | cons op ops ih =>
      exact ih (fun op' hop' => hops op' (by simp [hop'])) (op.apply_fed (hops op (by simp)) h)

theorem undergo_program (ops : List Operation) (hops : ∀ q, .offer (.program q) ∉ ops) :
    (m.undergo ops).program = m.program := by
  induction ops generalizing m with
  | nil => rfl
  | cons op ops ih =>
      have hop : ∀ q, op ≠ .offer (.program q) := fun q hq => hops q (by simp [hq])
      exact (ih fun q hq => hops q (by simp [hq])).trans (op.apply_program hop)

/-! ## Replays -/

/-- Where the input tape holds `input.values`, a new program and a rewind lead to a new machine with the
present output before its own. -/
theorem Fed.install_rewind {input : InputTape} (h : m.Fed input.values) (q : Program) :
    m.undergo [.offer (.program q), .rewind] =
      (Machine.new q input.rewind).preceded m.output.values := by
  have hinput : m.input.rewind = input.rewind := by simp [InputTape.rewind, h.input]
  have houtput : m.output = { values := m.output.values } := by rw [← h.sink]
  have hnew : Operation.apply m (.offer (.program q)) = Machine.new q m.input m.output :=
    reset_eq_new { m with program := q }
  calc m.undergo [.offer (.program q), .rewind]
      = Operation.rewind.apply (Machine.new q m.input m.output) := congrArg Operation.rewind.apply hnew
    _ = Machine.new q input.rewind { values := m.output.values } := by rw [new_rewind, hinput, ← houtput]
    _ = (Machine.new q input.rewind).preceded m.output.values := (new_preceded _ _ _).symm

/-- A machine without a sink that was used in whatever way, but on the same tapes, is reset or given another
program, and its input is rewound. Then every execution does what it does with a new machine on this
program and tape, and the output is what was there before and the output of the new machine. -/
theorem execute_replayed {input : InputTape} {old : Array Int} {ops : List Operation}
    (hops : ∀ op ∈ ops, op.KeepsTapes) (hm : m = (Machine.new p input { values := old }).undergo ops)
    (fuel : Nat) (o : RunOptions) :
    ((∀ q, .offer (.program q) ∉ ops) →
      (m.undergo [.reset, .rewind]).execute fuel o =
        { (Machine.new p input.rewind).execute fuel o with
          machine := ((Machine.new p input.rewind).execute fuel o).machine.preceded m.output.values }) ∧
      ∀ q, (m.undergo [.offer (.program q), .rewind]).execute fuel o =
        { (Machine.new q input.rewind).execute fuel o with
          machine := ((Machine.new q input.rewind).execute fuel o).machine.preceded m.output.values } := by
  have hnew : (Machine.new p input { values := old }).Fed input.values :=
    ⟨by rw [new_input], by simp [Machine.new]⟩
  have hfed : m.Fed input.values := hm ▸ undergo_fed ops hops hnew
  refine ⟨fun hoffer => ?_, fun q => ?_⟩
  · have hp : m.program = p := by
      rw [hm, undergo_program ops hoffer]
      exact reset_program
    have hreset : m.undergo [.reset, .rewind] = m.undergo [.offer (.program p), .rewind] := by
      rw [← hp]
      rfl
    rw [hreset, hfed.install_rewind, execute_preceded]
  · rw [hfed.install_rewind, execute_preceded]

/-- A run that was made to write another number than it read. -/
def tampering : List Operation := [.call .step, .setRegister 1 8, .call (.execute 9 {})]

theorem execute_replayed_echo :
    ∃ m, m = (Machine.new echo (.ofList [5])).undergo tampering ∧ m.output.values = #[8] ∧
      (m.undergo [.reset, .rewind]).execute 9 =
        { (Machine.new echo (.ofList [5])).execute 9 with
          machine := ((Machine.new echo (.ofList [5])).execute 9).machine.preceded #[8] } ∧
      ((m.undergo [.reset, .rewind]).execute 9).machine.output.values = #[8, 5] := by
  have hops : ∀ op ∈ tampering, op.KeepsTapes := by simp [tampering, Operation.KeepsTapes]
  have hold : ((Machine.new echo (.ofList [5])).undergo tampering).output.values = #[8] := by decide +kernel
  obtain ⟨m, hm⟩ : ∃ m, m = (Machine.new echo (.ofList [5])).undergo tampering := ⟨_, rfl⟩
  have hreset := (execute_replayed hops hm 9 {}).1 (by simp [tampering])
  rw [← hm] at hold
  rw [hold] at hreset
  exact ⟨m, hm, hold, hreset, by rw [hm]; decide +kernel⟩

end Machine
end RandomAccess

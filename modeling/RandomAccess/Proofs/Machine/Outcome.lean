import RandomAccess.Proofs.Machine.Effect

/-!
# How a step ends

A step returns or reports a failure, and it leaves a machine behind. All the ways in which this can come
about are the cases of one relation. What a step keeps is shown by going through them.
-/

namespace RandomAccess

open Abstract

/-! ## Writing a value -/

namespace OutputTape

/-- The tape with one more value that its sink has not got. -/
def append (t : OutputTape) (v : Int) : OutputTape := { t with values := t.values.push v }

inductive Writes (t : OutputTape) (v : Int) : OutputTape → Option Failure → Prop where
  | kept (hs : t.sink = none) : Writes t v (t.append v) none
  | sent {s s' : Sink} (hs : t.sink = some s) (hv : Numeral.writable v = true)
      (hw : s.write (line v) = .ok s') : Writes t v { t.append v with sink := some s' } none
  | refused {s : Sink} (hs : t.sink = some s) (hv : Numeral.writable v = true)
      (hw : s.write (line v) = .error .full) :
      Writes t v (t.append v) (some (.fault (.outputRefused s.reason)))
  | closed {s : Sink} (hs : t.sink = some s) (hv : Numeral.writable v = true)
      (hw : s.write (line v) = .error .closed) : Writes t v (t.append v) (some .closedSink)
  | overlong {s : Sink} (hs : t.sink = some s) (hv : Numeral.writable v = false) :
      Writes t v (t.append v) (some (.digitLimit .writing))

theorem writes_write (t : OutputTape) (v : Int) : t.Writes v (t.write v).1 (t.write v).2 := by
  obtain ⟨vs, sink⟩ := t
  cases sink with
  | none => exact .kept rfl
  | some s =>
      cases hv : Numeral.writable v with
      | false =>
          simp only [write, hv, Bool.not_false, if_true]
          exact .overlong rfl hv
      | true =>
          simp only [write, hv, Bool.not_true, Bool.false_eq_true, if_false]
          cases hw : s.write (line v) with
          | ok s' => exact .sent rfl hv hw
          | error x =>
              cases x with
              | closed => exact .closed rfl hv hw
              | full => exact .refused rfl hv hw

theorem Writes.of_fault {t t' : OutputTape} {v : Int} {f : Fault} (h : t.Writes v t' (some (.fault f))) :
    f.kind = .outputRefused ∧ t' = t.append v := by
  cases h with
  | refused _ _ _ => exact ⟨rfl, rfl⟩

end OutputTape

namespace Machine

variable {m : Machine} {k : Int} {i : Instruction} {e : Effect}

/-! ## The next instruction -/

theorem result_eq_none (h : m.finished = false) : m.result = none := by simpa [finished] using h

/-- The run goes on with the instruction `i` at index `k`. -/
structure Fetches (m : Machine) (k : Int) (i : Instruction) : Prop where
  running : m.finished = false
  pointer : m.ip = some k
  instruction : m.program.at? (some k) = some i

/-- The fault that keeps the next instruction from having an effect. -/
inductive Blocked (m : Machine) : Fault → Prop where
  | lost (h : m.program.at? m.ip = none) : Blocked m (.outOfProgram m.ip)
  | meets {k : Int} {i : Instruction} {f : Fault} (hf : m.Fetches k i) (hm : m.Meets i f) : Blocked m f

theorem Fetches.plan_eq (h : m.Fetches k i) : m.plan = (m.effect k i).map fun e => (k, i, e) := by
  simp only [plan, h.pointer, Program.fetch, h.instruction, bind, Except.bind]
  cases m.effect k i <;> rfl

theorem plan_cases (h : m.finished = false) :
    (∃ k i e, m.plan = .ok (k, i, e) ∧ m.Fetches k i ∧ m.Causes k i e) ∨
      ∃ f, m.plan = .error (.ofFault f) ∧ m.Blocked f := by
  cases hp : m.ip with
  | none =>
      refine Or.inr ⟨.outOfProgram m.ip, ?_, .lost ?_⟩
      · simp only [plan, hp]
        rfl
      · rw [hp]
        rfl
  | some k =>
      cases hi : m.program.at? (some k) with
      | none =>
          refine Or.inr ⟨.outOfProgram m.ip, ?_, .lost (by rw [hp, hi])⟩
          simp only [plan, hp, Program.fetch, hi]
          rfl
      | some i =>
          have hf : m.Fetches k i := ⟨h, hp, hi⟩
          rcases m.effect_accounted k i with ⟨e, he, hc⟩ | ⟨f, he, hm⟩
          · exact Or.inl ⟨k, i, e, by rw [hf.plan_eq, he]; rfl, hf, hc⟩
          · exact Or.inr ⟨f, by rw [hf.plan_eq, he]; rfl, .meets hf hm⟩

/-! ## Completed instructions -/

@[simp] theorem perform_program : (m.perform e).1.program = m.program := by cases e <;> rfl

@[simp] theorem perform_steps : (m.perform e).1.steps = m.steps := by cases e <;> rfl

@[simp] theorem perform_result : (m.perform e).1.result = m.result := by cases e <;> rfl

/-- Where the pointer goes after the instruction at `index`. -/
def successor (m : Machine) (index : Int) : Effect → Option Int
  | .goto target => target
  | _ => m.program.next index

theorem proceed_of_successor_none (h : m.successor k e = none) :
    m.proceed k e = { m with ip := none, result := some (.halted m.steps) } := by
  cases e <;> simp only [successor] at h <;> simp only [proceed, h]

theorem proceed_of_successor_some {j : Int} (h : m.successor k e = some j) :
    m.proceed k e = { m with ip := some j } := by
  cases e <;> simp only [successor] at h <;> simp only [proceed, h]

/-- The machine after the instruction `i` at index `k` had the effect `e`. -/
def after (m : Machine) (k : Int) (i : Instruction) (e : Effect) : Machine :=
  ({ (m.perform e).1 with steps := m.steps + 1 }.record k i).proceed k e

theorem after_eq : m.after k i e =
    { ({ (m.perform e).1 with steps := m.steps + 1 }.record k i) with
      ip := m.successor k e
      result := if m.successor k e = none then some (.halted (m.steps + 1)) else m.result } := by
  have hs : ({ (m.perform e).1 with steps := m.steps + 1 }.record k i).successor k e = m.successor k e := by
    cases e <;> rfl
  cases h : m.successor k e with
  | none =>
      rw [after, proceed_of_successor_none (hs.trans h)]
      rfl
  | some j =>
      rw [after, proceed_of_successor_some (hs.trans h)]
      simp [record]

@[simp] theorem after_program : (m.after k i e).program = m.program := by simp [after_eq, record]

@[simp] theorem after_steps : (m.after k i e).steps = m.steps + 1 := by simp [after_eq, record]

@[simp] theorem after_output : (m.after k i e).output = (m.perform e).1.output := by
  simp [after_eq, record]

theorem after_registers : (m.after k i e).registers = (m.perform e).1.registers := by
  simp [after_eq, record]

@[simp] theorem after_ip : (m.after k i e).ip = m.successor k e := by rw [after_eq]

theorem after_result :
    (m.after k i e).result = if m.successor k e = none then some (.halted (m.steps + 1)) else m.result := by
  rw [after_eq]

/-! ## Steps -/

/-- What a step leaves behind and what it reports. -/
inductive Outcome (m : Machine) : Machine → Option Failure → Prop where
  | idle (h : m.finished = true) : Outcome m m none
  | faulted {f : Fault} (h : m.finished = false) (hb : m.Blocked f) (hw : f.writable = true) :
      Outcome m (m.fault f) none
  /-- The fault has no message, so it is not reported. -/
  | unreported {f : Fault} (h : m.finished = false) (hb : m.Blocked f) (hw : f.writable = false) :
      Outcome m m (some (.digitLimit .writing))
  | refused {k : Int} {i : Instruction} {v : Int} {t : OutputTape} {f : Fault} (hf : m.Fetches k i)
      (hc : m.Causes k i (.output v)) (ht : m.output.Writes v t (some (.fault f))) :
      Outcome m ({ m with output := t }.fault f) none
  | unsent {k : Int} {i : Instruction} {v : Int} {t : OutputTape} {x : Failure} (hf : m.Fetches k i)
      (hc : m.Causes k i (.output v)) (ht : m.output.Writes v t (some x)) (hx : ∀ f, x ≠ .fault f) :
      Outcome m { m with output := t } (some x)
  | completed {k : Int} {i : Instruction} {e : Effect} (hf : m.Fetches k i) (hc : m.Causes k i e)
      (hp : (m.perform e).2 = none) (hw : i.writable = true) : Outcome m (m.after k i e) none
  /-- The instruction has no text, so it is not counted. -/
  | uncounted {k : Int} {i : Instruction} {e : Effect} (hf : m.Fetches k i) (hc : m.Causes k i e)
      (hp : (m.perform e).2 = none) (hw : i.writable = false) :
      Outcome m { (m.perform e).1 with steps := m.steps + 1 } (some (.digitLimit .writing))

theorem step_of_finished (h : m.finished = true) : m.step = (m, none) := by
  rw [step, if_pos h]

theorem step_of_plan_error (h : m.finished = false) {x : Failure} (hp : m.plan = .error x) :
    m.step = m.fail x := by
  simp only [step, h, hp]
  rfl

theorem step_of_perform_none (h : m.finished = false) (hp : m.plan = .ok (k, i, e))
    (hf : (m.perform e).2 = none) :
    m.step = if i.writable then (m.after k i e, none)
      else ({ (m.perform e).1 with steps := m.steps + 1 }, some (.digitLimit .writing)) := by
  have hq : m.perform e = ((m.perform e).1, none) := Prod.ext rfl hf
  simp only [step, h, hp, Bool.false_eq_true, if_false]
  rw [hq]
  simp only [complete, after, perform_steps]

theorem step_of_perform_some (h : m.finished = false) (hp : m.plan = .ok (k, i, e)) {x : Failure}
    (hf : (m.perform e).2 = some x) : m.step = (m.perform e).1.fail x := by
  have hq : m.perform e = ((m.perform e).1, some x) := Prod.ext rfl hf
  simp only [step, h, hp, Bool.false_eq_true, if_false]
  rw [hq]

theorem outcome_of_blocked (h : m.finished = false) {f : Fault} (hb : m.Blocked f) :
    m.Outcome (m.fail (.ofFault f)).1 (m.fail (.ofFault f)).2 := by
  unfold Failure.ofFault
  split
  · rename_i hw
    exact .faulted h hb hw
  · rename_i hw
    exact .unreported h hb (by simpa using hw)

theorem outcome_of_output {v : Int} (hf : m.Fetches k i) (hc : m.Causes k i (.output v)) {x : Failure}
    (hx : (m.output.write v).2 = some x) :
    m.Outcome ({ m with output := (m.output.write v).1 }.fail x).1
      ({ m with output := (m.output.write v).1 }.fail x).2 := by
  have ht := m.output.writes_write v
  rw [hx] at ht
  cases x with
  | fault f => exact .refused hf hc ht
  | digitLimit x => exact .unsent hf hc ht nofun
  | closedSink => exact .unsent hf hc ht nofun

/-- Every step has its outcome. -/
theorem step_outcome (m : Machine) : m.Outcome m.step.1 m.step.2 := by
  cases h : m.finished with
  | true =>
      rw [step_of_finished h]
      exact .idle h
  | false =>
      rcases plan_cases h with ⟨k, i, e, hp, hf, hc⟩ | ⟨f, hp, hb⟩
      · cases hx : (m.perform e).2 with
        | none =>
            rw [step_of_perform_none h hp hx]
            cases hw : i.writable with
            | true => exact .completed hf hc hx hw
            | false => exact .uncounted hf hc hx hw
        | some x =>
            rw [step_of_perform_some h hp hx]
            -- only an effect on the output tape fails
            cases e with
            | output v => exact outcome_of_output hf hc hx
            | assign n v => cases hx
            | input n v => cases hx
            | goto t => cases hx
      · rw [step_of_plan_error h hp]
        exact outcome_of_blocked h hb

end Machine
end RandomAccess

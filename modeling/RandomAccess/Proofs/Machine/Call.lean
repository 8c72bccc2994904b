import RandomAccess.Machine.Execute
import RandomAccess.Proofs.Machine.Outcome

/-!
# Calls

A machine is driven by single steps and by executions. What every step keeps, and every note that an
execution takes, is kept by every sequence of calls.
-/

namespace RandomAccess

/-- The ways to make a machine work. -/
inductive Call where
  | step
  | execute (fuel : Nat) (o : RunOptions)

/-- The machine after a call, and how the call came to its end. -/
def Call.run (m : Machine) : Call → Machine × Stop
  | step => (m.step.1, match m.step.2 with
    | none => .finished
    | some x => .failed x)
  | execute fuel o => ((m.execute fuel o).machine, (m.execute fuel o).stop)

namespace Machine

variable {m : Machine} {o : RunOptions}

/-- The machine after a sequence of calls. -/
def drive (m : Machine) (calls : List Call) : Machine := calls.foldl (fun m c => (c.run m).1) m

/-! ## One step of an execution -/

theorem Outcome.ne_fault {m' : Machine} {x : Failure} (h : m.Outcome m' (some x)) (f : Fault) :
    x ≠ .fault f := by
  cases h with
  | unreported _ _ _ => nofun
  | unsent _ _ _ hx => exact hx f
  | uncounted _ _ _ _ => nofun

theorem step_ne_fault {f : Fault} : m.step.2 ≠ some (.fault f) := by
  intro h
  have ho := m.step_outcome
  rw [h] at ho
  exact ho.ne_fault f rfl

theorem tracedStep_machine (m : Machine) (o : RunOptions) :
    (m.tracedStep o).1 = m ∨ (m.tracedStep o).1 = m.step.1 := by
  unfold tracedStep
  split
  · split
    · exact Or.inl rfl
    · split
      · rename_i hs
        exact Or.inr (by rw [hs])
      · rename_i hs
        split <;> exact Or.inr (by rw [hs])
  · exact Or.inr rfl

/-- A step of an execution fails with a fault only if the instruction to be announced is not there. -/
theorem tracedStep_fault {f : Fault} (h : (m.tracedStep o).2.2 = some (.fault f)) :
    m.program.at? m.ip = none := by
  unfold tracedStep at h
  split at h
  · split at h
    · rename_i x hx
      cases hi : m.program.at? m.ip with
      | none => rfl
      | some i =>
          simp only [announcement, Program.fetch, hi, bind, Except.bind] at hx
          split at hx <;> cases hx
          cases h
    · split at h
      · rename_i m' x hs
        have hx : m.step.2 = some x := by rw [hs]
        cases h
        exact absurd hx step_ne_fault
      · split at h
        · rename_i x hx
          simp only [display] at hx
          split at hx <;> cases hx
          cases h
        · cases h
  · exact absurd h step_ne_fault

/-! ## The loop of an execution -/

variable {fuel : Nat} {printed : String}

theorem loop_of_finished (h : m.finished = true) :
    m.loop o fuel printed = ⟨m, printed, .finished⟩ := by
  cases fuel <;> rw [loop, if_pos h]

theorem loop_of_exhausted (h : m.finished = false) (he : m.exhausted o = true) :
    m.loop o fuel printed = ⟨m.fault .limitReached, printed, .finished⟩ := by
  cases fuel <;> simp [loop, h, he]

theorem loop_zero (h : m.finished = false) (he : m.exhausted o = false) :
    m.loop o 0 printed = ⟨m, printed, .outOfFuel⟩ := by
  simp [loop, h, he]

theorem loop_of_failed (h : m.finished = false) (he : m.exhausted o = false) {m' : Machine} {t : String}
    {x : Failure} (hs : m.tracedStep o = (m', t, some x)) :
    m.loop o (fuel + 1) printed = ⟨m', printed ++ t, .failed x⟩ := by
  simp [loop, h, he, hs]

theorem loop_succ (h : m.finished = false) (he : m.exhausted o = false) {m' : Machine} {t : String}
    (hs : m.tracedStep o = (m', t, none)) :
    m.loop o (fuel + 1) printed = m'.loop o fuel (printed ++ t) := by
  simp [loop, h, he, hs]

/-! ## What calls keep -/

/-- The property is kept by all that a call does to a machine. -/
structure Kept (P : Machine → Prop) : Prop where
  step : ∀ m, P m → P m.step.1
  limit : ∀ m, m.finished = false → P m → P (m.fault .limitReached)
  openTrace : ∀ m w, P m → P (m.openTrace w)
  closeTrace : ∀ m w, P m → P (m.closeTrace w)

namespace Kept

variable {P : Machine → Prop}

theorem tracedStep (h : Kept P) (hm : P m) : P (m.tracedStep o).1 := by
  rcases m.tracedStep_machine o with hs | hs
  · rwa [hs]
  · rw [hs]
    exact h.step m hm

/-- The loop ends in a machine with the property, and where a step of it failed, it failed in one. -/
theorem loop (h : Kept P) (fuel : Nat) (hm : P m) (printed : String) :
    P (m.loop o fuel printed).machine ∧ ∀ x, (m.loop o fuel printed).stop = .failed x →
      ∃ m', P m' ∧ m'.finished = false ∧ (m'.tracedStep o).2.2 = some x := by
  -- on the fuel: the machine and the text so far change from round to round
  induction fuel generalizing m printed with
  | zero =>
      cases hf : m.finished with
      | true => rw [loop_of_finished hf]; exact ⟨hm, nofun⟩
      | false =>
          cases he : m.exhausted o with
          | true => rw [loop_of_exhausted hf he]; exact ⟨h.limit m hf hm, nofun⟩
          | false => rw [loop_zero hf he]; exact ⟨hm, nofun⟩
  | succ fuel ih =>
      cases hf : m.finished with
      | true => rw [loop_of_finished hf]; exact ⟨hm, nofun⟩
      | false =>
          cases he : m.exhausted o with
          | true => rw [loop_of_exhausted hf he]; exact ⟨h.limit m hf hm, nofun⟩
          | false =>
              have ht := h.tracedStep (o := o) hm
              rcases hs : m.tracedStep o with ⟨m', t, x⟩
              rw [hs] at ht
              cases x with
              | none => rw [loop_succ hf he hs]; exact ih ht _
              | some x =>
                  rw [loop_of_failed hf he hs]
                  refine ⟨ht, fun y hy => ⟨m, hm, hf, ?_⟩⟩
                  cases hy
                  rw [hs]

theorem execute (h : Kept P) (fuel : Nat) (o : RunOptions) (hm : P m) :
    P (m.execute fuel o).machine := by
  have hl := (h.loop (o := o) fuel (h.openTrace m o.window hm) "").1
  simp only [Machine.execute]
  split
  · exact h.closeTrace _ _ hl
  · exact hl

theorem execute_failed (h : Kept P) {fuel : Nat} (hm : P m) {x : Failure}
    (hx : (m.execute fuel o).stop = .failed x) :
    ∃ m', P m' ∧ m'.finished = false ∧ (m'.tracedStep o).2.2 = some x := by
  refine (h.loop fuel (h.openTrace m o.window hm) "").2 x ?_
  simp only [Machine.execute] at hx
  split at hx
  · rename_i hs
    rw [hs] at hx
    cases hx
  · exact hx

theorem drive (h : Kept P) (calls : List Call) (hm : P m) : P (m.drive calls) := by
  induction calls generalizing m with
  | nil => exact hm
  | cons c calls ih =>
      apply ih
      cases c with
      | step => exact h.step m hm
      | execute fuel o => exact h.execute fuel o hm

end Kept
end Machine
end RandomAccess

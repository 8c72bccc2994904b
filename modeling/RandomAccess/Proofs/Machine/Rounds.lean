import RandomAccess.Proofs.Machine.Atomicity

/-!
# Executions round by round

An execution makes rounds, each of which is a step with the text printed around it, until it stops: the
run is over, the limit is reached, a round fails or the fuel is used up. Where it stops depends on the
machines that the steps lead through, and not on the text printed so far or on fuel that is left.
-/

namespace RandomAccess.Machine

variable {m m' : Machine} {o : RunOptions} {fuel n : Nat} {printed : String} {e : Execution}

/-! ## Steps one after the other -/

/-- The machine after `n` steps. -/
def ahead (m : Machine) : Nat → Machine
  | 0 => m
  | n + 1 => m.step.1.ahead n

@[simp] theorem ahead_zero (m : Machine) : m.ahead 0 = m := rfl

theorem ahead_add (m : Machine) (j n : Nat) : m.ahead (j + n) = (m.ahead j).ahead n := by
  induction j generalizing m with
  | zero => rw [Nat.zero_add, ahead_zero]
  | succ j ih =>
      rw [Nat.add_right_comm]
      exact ih m.step.1

theorem ahead_succ (m : Machine) (n : Nat) : m.ahead (n + 1) = (m.ahead n).step.1 := ahead_add m n 1

theorem ahead_of_finished (h : m.finished = true) (n : Nat) : m.ahead n = m := by
  induction n with
  | zero => rfl
  | succ n ih => rw [ahead_succ, ih, step_of_finished h]

/-- A step that returns leaves the run going on after one more step, or ends it. -/
theorem step_cases (h : m.finished = false) (hs : m.step.2 = none) :
    m.step.1.finished = false ∧ m.step.1.steps = m.steps + 1 ∨
      m.step.1.result = some (.halted (m.steps + 1)) ∧ m.step.1.steps = m.steps + 1 ∨
      ∃ f, m.step.1.result = some (.faulted m.ip f m.steps) ∧ m.step.1.steps = m.steps := by
  have ho := m.step_outcome
  rw [hs] at ho
  generalize m.step.1 = m' at ho
  cases ho with
  | idle h' => rw [h] at h'; cases h'
  | faulted => exact Or.inr (Or.inr ⟨_, rfl, rfl⟩)
  | refused => exact Or.inr (Or.inr ⟨_, rfl, rfl⟩)
  | @completed k i e hf hc hp hw =>
      by_cases hn : m.successor k e = none
      · exact Or.inr (Or.inl ⟨by rw [after_result, if_pos hn], after_steps⟩)
      · refine Or.inl ⟨?_, after_steps⟩
        rw [finished, after_result, if_neg hn, result_eq_none h]
        rfl

theorem step_steps_le (hs : m.step.2 = none) : m.step.1.steps ≤ m.steps + 1 := by
  cases h : m.finished with
  | true =>
      rw [step_of_finished h]
      exact Nat.le_succ _
  | false => rcases step_cases h hs with ⟨-, h⟩ | ⟨-, h⟩ | ⟨f, -, h⟩ <;> omega

/-! ## Rounds -/

theorem tracedStep_of_silent (h : o.debug = false) (m : Machine) :
    m.tracedStep o = (m.step.1, "", m.step.2) := by
  rw [tracedStep, if_neg (by simp [h])]

theorem tracedStep_returned (h : (m.tracedStep o).2.2 = none) :
    (m.tracedStep o).1 = m.step.1 ∧ m.step.2 = none := by
  cases hd : o.debug with
  | false =>
      rw [tracedStep_of_silent hd] at h ⊢
      exact ⟨rfl, h⟩
  | true =>
      unfold tracedStep at h ⊢
      rw [if_pos hd] at h ⊢
      split at h
      · cases h
      · rcases hs : m.step with ⟨m', _ | x⟩
        · simp only [hs] at h ⊢
          split at h
          · cases h
          · exact ⟨rfl, trivial⟩
        · simp only [hs] at h
          cases h

/-- An execution makes a round at this machine, and the round returns. -/
structure Returns (m : Machine) (o : RunOptions) : Prop where
  running : m.finished = false
  within : m.exhausted o = false
  returned : (m.tracedStep o).2.2 = none

theorem Returns.step (h : m.Returns o) : m.step.2 = none := (tracedStep_returned h.returned).2

theorem Returns.loop_eq (h : m.Returns o) (fuel : Nat) (printed : String) :
    m.loop o (fuel + 1) printed = m.step.1.loop o fuel (printed ++ (m.tracedStep o).2.1) :=
  loop_succ h.running h.within (Prod.ext (tracedStep_returned h.returned).1 (Prod.ext rfl h.returned))

/-- An execution makes at least `n` rounds that return. -/
def Proceeds (m : Machine) (o : RunOptions) (n : Nat) : Prop := ∀ j < n, (m.ahead j).Returns o

/-- What `n` rounds print. -/
def transcript (m : Machine) (o : RunOptions) (n : Nat) : String :=
  String.join ((List.range n).map fun j => ((m.ahead j).tracedStep o).2.1)

@[simp] theorem transcript_zero (m : Machine) (o : RunOptions) : m.transcript o 0 = "" := rfl

theorem transcript_succ (m : Machine) (o : RunOptions) (n : Nat) :
    m.transcript o (n + 1) = (m.tracedStep o).2.1 ++ m.step.1.transcript o n := by
  rw [transcript, List.range_succ_eq_map, List.map_cons, List.map_map, String.join_cons]
  rfl

theorem Proceeds.zero (m : Machine) (o : RunOptions) : m.Proceeds o 0 := nofun

theorem proceeds_succ : m.Proceeds o (n + 1) ↔ m.Returns o ∧ m.step.1.Proceeds o n := by
  constructor
  · intro h
    exact ⟨h 0 (Nat.zero_lt_succ n), fun j hj => h (j + 1) (Nat.succ_lt_succ hj)⟩
  · rintro ⟨h, hr⟩ j hj
    cases j with
    | zero => exact h
    | succ j => exact hr j (Nat.lt_of_succ_lt_succ hj)

theorem Proceeds.mono (h : m.Proceeds o n) {j : Nat} (hj : j ≤ n) : m.Proceeds o j :=
  fun i hi => h i (Nat.lt_of_lt_of_le hi hj)

/-- Rounds that leave the run going on have completed an instruction each. -/
theorem Proceeds.steps (h : m.Proceeds o n) (hf : (m.ahead n).finished = false) :
    (m.ahead n).steps = m.steps + n := by
  induction n with
  | zero => rfl
  | succ n ih =>
      have hn := h n (Nat.lt_succ_self n)
      have hs := ih (h.mono (Nat.le_succ n)) hn.running
      rw [ahead_succ] at hf ⊢
      rcases step_cases hn.running hn.step with ⟨-, hs'⟩ | ⟨hres, -⟩ | ⟨f, hres, -⟩
      · omega
      · simp [finished, hres] at hf
      · simp [finished, hres] at hf

theorem Proceeds.loop_eq (h : m.Proceeds o n) (fuel : Nat) (printed : String) :
    m.loop o (n + fuel) printed = (m.ahead n).loop o fuel (printed ++ m.transcript o n) := by
  induction n generalizing m printed with
  | zero => simp
  | succ n ih =>
      obtain ⟨hr, hrest⟩ := proceeds_succ.mp h
      rw [Nat.add_right_comm, hr.loop_eq, ih hrest, transcript_succ, String.append_assoc]
      rfl

/-! ## How an execution stops -/

/-- An execution that comes to the machine `m` ends there, and leaves the second machine behind. -/
inductive Ends (m : Machine) (o : RunOptions) : Machine → Prop where
  | finished (h : m.finished = true) : Ends m o m
  | limit (h : m.finished = false) (he : m.exhausted o = true) : Ends m o (m.fault .limitReached)

theorem Ends.loop_eq (h : m.Ends o m') (fuel : Nat) (printed : String) :
    m.loop o fuel printed = ⟨m', printed, .finished⟩ := by
  cases h with
  | finished h => exact loop_of_finished h
  | limit h he => exact loop_of_exhausted h he

/-- The loop stops at this machine, with this much fuel left and this text printed. -/
inductive Stops (m : Machine) (o : RunOptions) (printed : String) : Nat → Execution → Prop where
  | ended {fuel : Nat} {m' : Machine} (h : m.Ends o m') : Stops m o printed fuel ⟨m', printed, .finished⟩
  | failed {fuel : Nat} {m' : Machine} {t : String} {x : Failure} (h : m.finished = false)
      (he : m.exhausted o = false) (hs : m.tracedStep o = (m', t, some x)) :
      Stops m o printed (fuel + 1) ⟨m', printed ++ t, .failed x⟩
  | outOfFuel (h : m.finished = false) (he : m.exhausted o = false) :
      Stops m o printed 0 ⟨m, printed, .outOfFuel⟩

theorem Stops.loop_eq (h : m.Stops o printed fuel e) : m.loop o fuel printed = e := by
  cases h with
  | ended h => exact h.loop_eq fuel printed
  | failed h he hs => exact loop_of_failed h he hs
  | outOfFuel h he => exact loop_zero h he

theorem Stops.more (h : m.Stops o printed fuel e) (hx : e.stop ≠ .outOfFuel) (extra : Nat) :
    m.Stops o printed (fuel + extra) e := by
  cases h with
  | ended h => exact .ended h
  | failed h he hs =>
      rw [Nat.add_right_comm]
      exact .failed h he hs
  | outOfFuel => exact absurd rfl hx

theorem Stops.after_text (h : m.Stops o printed fuel e) (before : String) :
    m.Stops o (before ++ printed) fuel { e with printed := before ++ e.printed } := by
  cases h with
  | ended h => exact .ended h
  | failed h he hs =>
      rw [← String.append_assoc]
      exact .failed h he hs
  | outOfFuel h he => exact .outOfFuel h he

/-- The loop stops where it is, unless a round returns. -/
theorem stops_or_returns (m : Machine) (o : RunOptions) (fuel : Nat) (printed : String) :
    (∃ e, m.Stops o printed fuel e) ∨ m.Returns o ∧ fuel ≠ 0 := by
  cases hf : m.finished with
  | true => exact Or.inl ⟨_, .ended (.finished hf)⟩
  | false =>
      cases he : m.exhausted o with
      | true => exact Or.inl ⟨_, .ended (.limit hf he)⟩
      | false =>
          cases fuel with
          | zero => exact Or.inl ⟨_, .outOfFuel hf he⟩
          | succ rest =>
              rcases hs : m.tracedStep o with ⟨m', t, _ | x⟩
              · exact Or.inr ⟨⟨hf, he, by rw [hs]⟩, Nat.succ_ne_zero rest⟩
              · exact Or.inl ⟨_, .failed hf he hs⟩

/-- Every execution makes some rounds and stops. -/
theorem loop_stops (m : Machine) (o : RunOptions) (fuel : Nat) (printed : String) :
    ∃ n rest, n + rest = fuel ∧ m.Proceeds o n ∧
      (m.ahead n).Stops o (printed ++ m.transcript o n) rest (m.loop o fuel printed) := by
  induction fuel generalizing m printed with
  | zero =>
      rcases stops_or_returns m o 0 printed with ⟨e, hs⟩ | ⟨-, hz⟩
      · exact ⟨0, 0, rfl, .zero m o, by simpa [hs.loop_eq] using hs⟩
      · exact absurd rfl hz
  | succ fuel ih =>
      rcases stops_or_returns m o (fuel + 1) printed with ⟨e, hs⟩ | ⟨hr, -⟩
      · exact ⟨0, fuel + 1, Nat.zero_add _, .zero m o, by simpa [hs.loop_eq] using hs⟩
      · obtain ⟨n, rest, rfl, hp, hs⟩ := ih m.step.1 (printed ++ (m.tracedStep o).2.1)
        refine ⟨n + 1, rest, Nat.add_right_comm n 1 rest, proceeds_succ.mpr ⟨hr, hp⟩, ?_⟩
        rw [hr.loop_eq, transcript_succ, ← String.append_assoc]
        exact hs

/-- An execution that ends has made its rounds, and ends where they lead. -/
theorem loop_ended (h : (m.loop o fuel printed).stop = .finished) :
    ∃ n m', n ≤ fuel ∧ m.Proceeds o n ∧ (m.ahead n).Ends o m' ∧
      m.loop o fuel printed = ⟨m', printed ++ m.transcript o n, .finished⟩ := by
  obtain ⟨n, rest, rfl, hp, hs⟩ := loop_stops m o fuel printed
  generalize hl : m.loop o (n + rest) printed = e at h hs
  cases hs with
  | ended he => exact ⟨n, _, Nat.le_add_right n rest, hp, he, rfl⟩
  | failed => cases h
  | outOfFuel => cases h

/-- Text printed before changes nothing. -/
theorem loop_printed (m : Machine) (o : RunOptions) (fuel : Nat) (printed : String) :
    m.loop o fuel printed =
      { m.loop o fuel "" with printed := printed ++ (m.loop o fuel "").printed } := by
  obtain ⟨n, rest, rfl, hp, hs⟩ := loop_stops m o fuel ""
  have ht := hs.after_text printed
  rw [String.empty_append] at ht
  rw [hp.loop_eq, ht.loop_eq]

/-- Fuel that is left changes nothing. -/
theorem loop_more (h : (m.loop o fuel printed).stop ≠ .outOfFuel) (extra : Nat) :
    m.loop o (fuel + extra) printed = m.loop o fuel printed := by
  obtain ⟨n, rest, rfl, hp, hs⟩ := loop_stops m o fuel printed
  rw [Nat.add_assoc, hp.loop_eq, (hs.more h extra).loop_eq]

end RandomAccess.Machine

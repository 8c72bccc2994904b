import RandomAccess.Proofs.Machine.Rounds

/-!
# What a run does not see

A part of a machine that no instruction looks at can be exchanged: the steps and the executions of the
machine with and without the exchange go side by side. What an execution notes of the first registers is
such a part.
-/

namespace RandomAccess.Machine

variable {m m' : Machine} {o : RunOptions} {k : Int} {i : Instruction} {fuel n : Nat} {printed : String}

/-! ## What an instruction looks at -/

theorem effect_congr (hp : m'.program = m.program) (hr : m'.registers = m.registers)
    (hi : m'.input.peek = m.input.peek) : m'.effect k i = m.effect k i := by
  unfold effect arithmetic target
  simp only [hp, hr, hi]

theorem plan_congr (hp : m'.program = m.program) (hr : m'.registers = m.registers) (hk : m'.ip = m.ip)
    (hi : m'.input.peek = m.input.peek) : m'.plan = m.plan := by
  unfold plan
  simp only [hp, hk, effect_congr hp hr hi]

theorem complete_eq (m : Machine) (k : Int) (i : Instruction) (e : Effect) :
    m.complete k i e =
      if i.writable then
        ({ m with
            ip := m.successor k e
            steps := m.steps + 1
            result := if m.successor k e = none then some (.halted (m.steps + 1)) else m.result
            trace := { m.trace with
              counts := Trace.bump (key k i) m.trace.counts
              executed := m.steps + 1 } }, none)
      else ({ m with steps := m.steps + 1 }, some (.digitLimit .writing)) := by
  have hs : ({ m with steps := m.steps + 1 }.record k i).successor k e = m.successor k e := by
    cases e <;> rfl
  unfold complete
  split
  · refine Prod.ext ?_ rfl
    cases h : m.successor k e with
    | none => exact proceed_of_successor_none (hs.trans h)
    | some j => exact proceed_of_successor_some (hs.trans h)
  · rfl

/-! ## Exchanges -/

/-- The exchange leaves alone what a round looks at, apart from what the instruction does to the tapes. -/
structure Exchange (φ : Machine → Machine) : Prop where
  program : ∀ m, (φ m).program = m.program
  registers : ∀ m, (φ m).registers = m.registers
  ip : ∀ m, (φ m).ip = m.ip
  steps : ∀ m, (φ m).steps = m.steps
  result : ∀ m, (φ m).result = m.result
  fault : ∀ m f, (φ m).fault f = φ (m.fault f)
  complete : ∀ m k i e, (φ m).complete k i e = (φ (m.complete k i e).1, (m.complete k i e).2)

/-- What a step changes it changes with or without the exchange. -/
structure Unseen (φ : Machine → Machine) : Prop extends Exchange φ where
  perform : ∀ m e, (φ m).perform e = (φ (m.perform e).1, (m.perform e).2)

/-- The next step with the exchange goes beside the step without it. -/
def Follows (φ : Machine → Machine) (m : Machine) : Prop := (φ m).step = (φ m.step.1, m.step.2)

theorem ahead_of_follows {φ : Machine → Machine} (hp : ∀ j < n, Follows φ (m.ahead j)) :
    (φ m).ahead n = φ (m.ahead n) := by
  induction n with
  | zero => rfl
  | succ n ih =>
      have hn := ih fun j hj => hp j (Nat.lt_succ_of_lt hj)
      rw [ahead_succ, hn, hp n (Nat.lt_succ_self n), ahead_succ]

namespace Exchange

variable {φ : Machine → Machine}

theorem finished (h : Exchange φ) (m : Machine) : (φ m).finished = m.finished := by
  rw [Machine.finished, h.result]
  rfl

theorem exhausted (h : Exchange φ) (m : Machine) (o : RunOptions) : (φ m).exhausted o = m.exhausted o := by
  rw [Machine.exhausted, h.steps]
  rfl

theorem fail (h : Exchange φ) (m : Machine) (x : Failure) :
    (φ m).fail x = (φ (m.fail x).1, (m.fail x).2) := by
  cases x with
  | fault f => exact Prod.ext (h.fault m f) rfl
  | digitLimit x => rfl
  | closedSink => rfl

/-- The next instruction has the same effect after the exchange. -/
def Agrees (φ : Machine → Machine) (m : Machine) : Prop := m.finished = false → (φ m).plan = m.plan

theorem follows (h : Exchange φ) (hp : Agrees φ m)
    (hperform : ∀ k i e, m.finished = false → m.plan = .ok (k, i, e) →
      (φ m).perform e = (φ (m.perform e).1, (m.perform e).2)) : Follows φ m := by
  unfold Follows
  cases hf : m.finished with
  | true => rw [step_of_finished hf, step_of_finished ((h.finished m).trans hf)]
  | false =>
      have hf' := (h.finished m).trans hf
      have hp' := hp hf
      cases hm : m.plan with
      | error x =>
          rw [hm] at hp'
          rw [step_of_plan_error hf hm, step_of_plan_error hf' hp', h.fail]
      | ok a =>
          obtain ⟨k, i, e⟩ := a
          rw [hm] at hp'
          simp only [step, hf, hf', hm, hp', Bool.false_eq_true, if_false, hperform k i e hf hm]
          rcases m.perform e with ⟨m₁, _ | x⟩
          · exact h.complete m₁ k i e
          · exact h.fail m₁ x

theorem announcement (h : Exchange φ) (m : Machine) : (φ m).announcement = m.announcement := by
  unfold Machine.announcement
  rw [h.program, h.ip]

theorem display (h : Exchange φ) (m : Machine) (w : Int) : (φ m).display w = m.display w := by
  unfold Machine.display
  rw [h.registers]

theorem tracedStep (h : Exchange φ) (hp : Follows φ m) (o : RunOptions) :
    (φ m).tracedStep o = (φ (m.tracedStep o).1, (m.tracedStep o).2) := by
  unfold Machine.tracedStep
  rw [h.announcement, hp]
  cases o.debug with
  | false => rfl
  | true =>
      cases m.announcement with
      | error x => rfl
      | ok t =>
          rcases m.step with ⟨m₁, _ | x⟩
          · simp only [h.display]
            cases m₁.display o.window <;> rfl
          · rfl

/-! ### Executions side by side -/

theorem returns (h : Exchange φ) (hp : Follows φ m) (hm : m.Returns o) : (φ m).Returns o where
  running := (h.finished m).trans hm.running
  within := (h.exhausted m o).trans hm.within
  returned := by
    rw [h.tracedStep hp]
    exact hm.returned

theorem proceeds (h : Exchange φ) (hp : ∀ j < n, Follows φ (m.ahead j)) (hm : m.Proceeds o n) :
    (φ m).Proceeds o n := by
  intro j hj
  rw [ahead_of_follows fun i hi => hp i (Nat.lt_trans hi hj)]
  exact h.returns (hp j hj) (hm j hj)

theorem transcript (h : Exchange φ) (hp : ∀ j < n, Follows φ (m.ahead j)) (o : RunOptions) :
    (φ m).transcript o n = m.transcript o n := by
  refine congrArg String.join (List.map_congr_left fun j hj => ?_)
  have hj := List.mem_range.mp hj
  rw [ahead_of_follows fun i hi => hp i (Nat.lt_trans hi hj), h.tracedStep (hp j hj)]

theorem ends (h : Exchange φ) (hm : m.Ends o m') : (φ m).Ends o (φ m') := by
  cases hm with
  | finished hf => exact .finished ((h.finished m).trans hf)
  | limit hf he =>
      rw [← h.fault]
      exact .limit ((h.finished m).trans hf) ((h.exhausted m o).trans he)

theorem stops (h : Exchange φ) (hp : m.exhausted o = false → Follows φ m) {e : Execution}
    (hs : m.Stops o printed fuel e) : (φ m).Stops o printed fuel { e with machine := φ e.machine } := by
  cases hs with
  | ended hm => exact .ended (h.ends hm)
  | failed hf he hs =>
      refine .failed ((h.finished m).trans hf) ((h.exhausted m o).trans he) ?_
      rw [h.tracedStep (hp he), hs]
  | outOfFuel hf he => exact .outOfFuel ((h.finished m).trans hf) ((h.exhausted m o).trans he)

/-- If every step of the execution is followed, the executions end with the exchange between them. -/
theorem loop (h : Exchange φ)
    (hp : ∀ j, m.Proceeds o j → (m.ahead j).exhausted o = false → Follows φ (m.ahead j))
    (fuel : Nat) (printed : String) :
    (φ m).loop o fuel printed =
      { m.loop o fuel printed with machine := φ (m.loop o fuel printed).machine } := by
  obtain ⟨n, rest, rfl, hm, hs⟩ := loop_stops m o fuel printed
  have hj : ∀ j < n, Follows φ (m.ahead j) := fun j hj => hp j (hm.mono (Nat.le_of_lt hj)) (hm j hj).within
  rw [(h.proceeds hj hm).loop_eq, ahead_of_follows hj, h.transcript hj]
  exact (h.stops (hp n hm) hs).loop_eq

/-- The same for an execution that ends: only the rounds that it makes count. -/
theorem loop_of_ends (h : Exchange φ) (hp : ∀ j < n, Follows φ (m.ahead j)) (hm : m.Proceeds o n)
    (he : (m.ahead n).Ends o m') (rest : Nat) (printed : String) :
    (φ m).loop o (n + rest) printed = ⟨φ m', printed ++ m.transcript o n, .finished⟩ := by
  rw [(h.proceeds hp hm).loop_eq, ahead_of_follows hp, h.transcript hp]
  exact (h.ends he).loop_eq rest _

end Exchange

namespace Unseen

variable {φ : Machine → Machine}

theorem follows (h : Unseen φ) (hp : Exchange.Agrees φ m) : Follows φ m :=
  h.toExchange.follows hp fun _ _ e _ _ => h.perform m e

end Unseen

/-! ## Notes of an execution -/

/-- The machine with another note of the first registers. -/
def opened (m : Machine) (initial : Option (List Int)) : Machine :=
  { m with trace := { m.trace with initial } }

theorem unseen_opened (initial : Option (List Int)) : Unseen (opened · initial) where
  program _ := rfl
  registers _ := rfl
  ip _ := rfl
  steps _ := rfl
  result _ := rfl
  fault _ _ := rfl
  perform m e := by cases e <;> rfl
  complete m k i e := by
    rw [complete_eq, complete_eq]
    split <;> rfl

theorem follows_opened (m : Machine) (initial : Option (List Int)) : Follows (opened · initial) m :=
  (unseen_opened initial).follows fun _ => plan_congr rfl rfl rfl rfl

theorem loop_opened (m : Machine) (initial : Option (List Int)) (o : RunOptions) (fuel : Nat)
    (printed : String) : (m.opened initial).loop o fuel printed =
      { m.loop o fuel printed with machine := (m.loop o fuel printed).machine.opened initial } :=
  (unseen_opened initial).loop (fun _ _ _ => follows_opened _ _) fuel printed

/-- What an execution notes at its start: the first registers, or what an earlier execution noted. -/
def note (m : Machine) (w : Int) : Option (List Int) :=
  some (m.trace.initial.getD (m.registers.window w))

/-- The machine with the notes of an execution. -/
def noted (m : Machine) (initial : Option (List Int)) (w : Int) : Machine :=
  (m.opened initial).closeTrace w

theorem Same.noted (m : Machine) (initial : Option (List Int)) (w : Int) : m.Same (m.noted initial w) :=
  ⟨rfl, rfl, rfl, rfl, rfl, rfl, rfl, rfl, rfl⟩

theorem Same.opened (m : Machine) (initial : Option (List Int)) : m.Same (m.opened initial) :=
  ⟨rfl, rfl, rfl, rfl, rfl, rfl, rfl, rfl, rfl⟩

theorem execute_of_ended {t : String} (h : m.loop o fuel "" = ⟨m', t, .finished⟩) :
    m.execute fuel o = ⟨m'.noted (m.note o.window) o.window, t ++ m'.epilogue o, .finished⟩ := by
  have hl := loop_opened m (m.note o.window) o fuel ""
  rw [h] at hl
  have ho : m.openTrace o.window = m.opened (m.note o.window) := rfl
  simp only [execute, ho, hl]
  rfl

theorem execute_of_broken (h : (m.loop o fuel "").stop ≠ .finished) :
    m.execute fuel o =
      { m.loop o fuel "" with machine := (m.loop o fuel "").machine.opened (m.note o.window) } := by
  have hl := loop_opened m (m.note o.window) o fuel ""
  have ho : m.openTrace o.window = m.opened (m.note o.window) := rfl
  simp only [execute, ho, hl]

theorem execute_stop (m : Machine) (fuel : Nat) (o : RunOptions) :
    (m.execute fuel o).stop = (m.loop o fuel "").stop := by
  rcases hl : m.loop o fuel "" with ⟨m', t, x⟩
  by_cases hx : x = .finished
  · subst hx
    rw [execute_of_ended hl]
  · rw [execute_of_broken (by rw [hl]; exact hx), hl]

/-- What an execution ends with depends on its rounds and on how it prints them. -/
theorem execute_congr {o' : RunOptions} {fuel' : Nat} (h : m.loop o fuel "" = m.loop o' fuel' "")
    (hw : o'.window = o.window) (hd : o'.debug = o.debug) : m.execute fuel o = m.execute fuel' o' := by
  rcases hl : m.loop o fuel "" with ⟨m', t, x⟩
  rw [hl] at h
  by_cases hx : x = .finished
  · subst hx
    rw [execute_of_ended hl, execute_of_ended h.symm, hw]
    simp only [epilogue, hd]
  · rw [execute_of_broken (by rw [hl]; exact hx), execute_of_broken (by rw [← h]; exact hx), hl, ← h, hw]

theorem execute_unique {fuel' : Nat} (h : (m.execute fuel o).stop ≠ .outOfFuel)
    (h' : (m.execute fuel' o).stop ≠ .outOfFuel) : m.execute fuel o = m.execute fuel' o := by
  rw [execute_stop] at h h'
  refine execute_congr ?_ rfl rfl
  rw [← loop_more h fuel', ← loop_more h' fuel, Nat.add_comm]

/-! ## Changes of the output tape -/

/-- The machine with another output tape in the place of its own. -/
def mapOutput (m : Machine) (f : OutputTape → OutputTape) : Machine := { m with output := f m.output }

section

variable {f : OutputTape → OutputTape}

theorem new_mapOutput (p : Program) (input : InputTape) (t : OutputTape) (f : OutputTape → OutputTape) :
    (Machine.new p input t).mapOutput f = Machine.new p input (f t) := by
  unfold Machine.new reset
  dsimp only
  cases p.first <;> rfl

theorem unseen_mapOutput (hf : ∀ t v, (f t).write v = (f (t.write v).1, (t.write v).2)) :
    Unseen (mapOutput · f) where
  program _ := rfl
  registers _ := rfl
  ip _ := rfl
  steps _ := rfl
  result _ := rfl
  fault _ _ := rfl
  perform m e := by
    cases e with
    | output v => simp only [perform, mapOutput, hf]
    | _ => rfl
  complete m k i e := by
    rw [complete_eq, complete_eq]
    split <;> rfl

/-- A change of the output tape that values can be written through changes nothing else. -/
theorem execute_mapOutput (hf : ∀ t v, (f t).write v = (f (t.write v).1, (t.write v).2)) (m : Machine)
    (fuel : Nat) (o : RunOptions) :
    (m.mapOutput f).execute fuel o =
      { m.execute fuel o with machine := (m.execute fuel o).machine.mapOutput f } := by
  have hopen : (m.mapOutput f).openTrace o.window = (m.openTrace o.window).mapOutput f := rfl
  have hfollow (m : Machine) : Follows (mapOutput · f) m :=
    (unseen_mapOutput hf).follows fun _ => plan_congr rfl rfl rfl rfl
  have hloop := (unseen_mapOutput hf).loop (m := m.openTrace o.window) (o := o) (fun _ _ _ => hfollow _)
    fuel ""
  rcases he : (m.openTrace o.window).loop o fuel "" with ⟨m', t, x⟩
  rw [he] at hloop
  simp only [execute, hopen, hloop, he]
  cases x <;> rfl

end

end RandomAccess.Machine

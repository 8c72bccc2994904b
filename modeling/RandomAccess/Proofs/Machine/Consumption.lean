import RandomAccess.Proofs.Machine.Control
import RandomAccess.Proofs.Machine.Unseen

/-!
# The input that a run consumes

A run sees of its input tape only the values that it reads, one after the other. On another tape with these
values it does the same; where it fails for want of a value, it comes on a longer tape to the same place.
-/

namespace RandomAccess

namespace InputTape

variable {t : InputTape}

theorem getElem?_of_peek {v : Int} (h : t.peek = .ok v) : t.values[t.position]? = some v := by
  unfold peek at h
  split at h
  · rename_i hv
    cases h
    exact hv
  · cases h

theorem size_le_of_peek {f : Fault} (h : t.peek = .error f) :
    f = .inputExhausted t.values.size ∧ t.values.size ≤ t.position := by
  unfold peek at h
  split at h
  · cases h
  · rename_i hv
    cases h
    exact ⟨rfl, Array.getElem?_eq_none_iff.mp hv⟩

end InputTape

namespace Machine

variable {m m' : Machine} {o : RunOptions} {k : Int} {i : Instruction} {fuel n : Nat} {values : Array Int}

/-- The machine with other values on the input tape, and the head where it was. -/
def retaped (m : Machine) (values : Array Int) : Machine := { m with input := { m.input with values } }

theorem retaped_program : (m.retaped values).program = m.program := rfl

theorem retaped_registers : (m.retaped values).registers = m.registers := rfl

theorem retaped_ip : (m.retaped values).ip = m.ip := rfl

theorem retaped_retaped {values' : Array Int} :
    (m.retaped values).retaped values' = m.retaped values' := rfl

theorem retaped_eq_self (h : m.input.values = values) : m.retaped values = m := by
  subst h
  rfl

theorem unseen_retaped (values : Array Int) : Unseen (retaped · values) where
  program _ := rfl
  registers _ := rfl
  ip _ := rfl
  steps _ := rfl
  result _ := rfl
  fault _ _ := rfl
  perform m e := by cases e <;> rfl
  complete m k i e := by
    rw [complete_eq, complete_eq]
    split <;> rfl

/-! ## What a step does to the input tape -/

/-- Only an instruction that comes to read a value looks at the tape, and at nothing but this value. -/
theorem effect_retaped (m : Machine) (k : Int) (i : Instruction) :
    (∀ values, (m.retaped values).effect k i = m.effect k i) ∨
      ∃ n, ∀ values, (m.retaped values).effect k i =
        match (m.retaped values).input.peek with
        | .ok v => .ok (.input n v)
        | .error f => .error (.fault f) := by
  obtain ⟨op, operand, l⟩ := i
  cases operand with
  | none => exact Or.inl fun _ => by cases op <;> rfl
  | some o =>
      cases op with
      | read =>
          cases hr : o.register m.registers .read with
          | error x =>
              refine Or.inl fun values => ?_
              simp only [effect, retaped_registers, hr]
              rfl
          | ok j =>
              by_cases hz : j = 0
              · refine Or.inl fun values => ?_
                simp only [effect, retaped_registers, hr, bind, Except.bind, if_pos hz]
                rfl
              · cases hj : Registers.index j with
                | error x =>
                    refine Or.inl fun values => ?_
                    simp only [effect, retaped_registers, hr, bind, Except.bind, if_neg hz, hj]
                | ok n =>
                    refine Or.inr ⟨n, fun values => ?_⟩
                    simp only [effect, retaped_registers, hr, bind, Except.bind, if_neg hz, hj]
                    cases (m.retaped values).input.peek <;> rfl
      | write => exact Or.inl fun _ => by cases o <;> rfl
      | _ => exact Or.inl fun _ => rfl

theorem plan_retaped (m : Machine) :
    (∀ values, (m.retaped values).plan = m.plan) ∨
      ∃ k i n, ∀ values, (m.retaped values).plan =
        match (m.retaped values).input.peek with
        | .ok v => .ok (k, i, .input n v)
        | .error f => .error (.fault f) := by
  cases hk : m.ip with
  | none => exact Or.inl fun values => by simp only [plan, retaped_ip, hk]
  | some k =>
      cases hi : m.program.fetch (some k) with
      | error x =>
          refine Or.inl fun values => ?_
          simp only [plan, retaped_ip, retaped_program, hk, hi]
          rfl
      | ok i =>
          rcases m.effect_retaped k i with he | ⟨n, he⟩
          · refine Or.inl fun values => ?_
            simp only [plan, retaped_ip, retaped_program, hk, hi, bind, Except.bind, he]
          · refine Or.inr ⟨k, i, n, fun values => ?_⟩
            simp only [plan, retaped_ip, retaped_program, hk, hi, bind, Except.bind, he]
            cases (m.retaped values).input.peek <;> rfl

/-- What a step does with the input tape: it leaves the tape alone, it reads the value under the head, or
there is none and the run is over. -/
inductive Looks (m : Machine) : Prop where
  | away (h : ∀ values, Exchange.Agrees (retaped · values) m) (hs : m.step.1.input = m.input)
  | reads (h : ∀ values, values[m.input.position]? = m.input.values[m.input.position]? →
        Exchange.Agrees (retaped · values) m)
      (hlt : m.input.position < m.input.values.size) (hs : m.step.1.input = m.input.advance)
  | pastEnd (hle : m.input.values.size ≤ m.input.position)
      (hs : m.step = (m.fault (.inputExhausted m.input.values.size), none))

theorem step_input {e : Effect} (h : m.finished = false) (hp : m.plan = .ok (k, i, e)) :
    m.step.1.input = (m.perform e).1.input := by
  cases hx : (m.perform e).2 with
  | none =>
      rw [step_of_perform_none h hp hx]
      split
      · simp [after_eq, record]
      · rfl
  | some x =>
      rw [step_of_perform_some h hp hx]
      cases x <;> rfl

theorem step_input_of_error {x : Failure} (h : m.finished = false) (hp : m.plan = .error x) :
    m.step.1.input = m.input := by
  rw [step_of_plan_error h hp]
  cases x <;> rfl

theorem Causes.peek_eq {n : Nat} {v : Int} (h : m.Causes k i (.input n v)) : m.input.peek = .ok v := by
  cases h with
  | read _ _ _ _ hv => exact hv

/-- What has the same effect on every tape is not the reading of a value. -/
theorem plan_ne_input {n : Nat} {v : Int} (h : m.finished = false)
    (hp : ∀ values, (m.retaped values).plan = m.plan) : m.plan ≠ .ok (k, i, .input n v) := by
  intro hm
  -- the empty tape has no value to be read
  rcases plan_cases (m := m.retaped #[]) h with ⟨k', i', e, he, -, hc⟩ | ⟨f, he, -⟩
  · rw [hp, hm] at he
    cases he
    cases hc.peek_eq
  · rw [hp, hm] at he
    cases he

theorem looks (m : Machine) : m.Looks := by
  cases hf : m.finished with
  | true => exact .away (fun _ h => by simp [hf] at h) (by rw [step_of_finished hf])
  | false =>
      rcases m.plan_retaped with hp | ⟨k, i, n, hp⟩
      · refine .away (fun values _ => hp values) ?_
        rcases hm : m.plan with x | ⟨k, i, e⟩
        · exact step_input_of_error hf hm
        · rw [step_input hf hm]
          cases e with
          | input n v => exact absurd hm (plan_ne_input hf hp)
          | _ => rfl
      · have hm : m.plan = _ := hp m.input.values
        cases hv : m.input.peek with
        | ok v =>
            have hm : m.plan = .ok (k, i, .input n v) := by
              rw [hm]
              simp only [retaped, hv]
            have hget := InputTape.getElem?_of_peek hv
            refine .reads (fun values hvalues _ => ?_) ?_ (step_input hf hm)
            · have hpeek : (m.retaped values).input.peek = .ok v := by
                simp only [InputTape.peek, retaped, hvalues, hget]
              rw [hm]
              exact (hp values).trans (by rw [hpeek])
            · exact (Array.getElem?_eq_some_iff.mp hget).1
        | error f =>
            obtain ⟨rfl, hle⟩ := InputTape.size_le_of_peek hv
            have hm : m.plan = .error (.fault (.inputExhausted m.input.values.size)) := by
              rw [hm]
              simp only [retaped, hv]
            exact .pastEnd hle (step_of_plan_error hf hm)

/-! ## What a run does to the input tape -/

theorem step_values (m : Machine) : m.step.1.input.values = m.input.values := by
  cases m.looks with
  | away _ hs => rw [hs]
  | reads _ _ hs => rw [hs]; rfl
  | pastEnd _ hs => rw [hs]; rfl

theorem step_position (m : Machine) : m.input.position ≤ m.step.1.input.position := by
  cases m.looks with
  | away _ hs => exact Nat.le_of_eq (by rw [hs])
  | reads _ _ hs => rw [hs]; exact Nat.le_succ _
  | pastEnd _ hs => rw [hs]; exact Nat.le_refl _

theorem step_position_le_size (h : m.input.position ≤ m.input.values.size) :
    m.step.1.input.position ≤ m.input.values.size := by
  cases m.looks with
  | away _ hs => rwa [hs]
  | reads _ hlt hs => rw [hs]; exact hlt
  | pastEnd _ hs => rw [hs]; exact h

theorem ahead_values (m : Machine) (n : Nat) : (m.ahead n).input.values = m.input.values := by
  induction n with
  | zero => rfl
  | succ n ih => rw [ahead_succ, step_values, ih]

theorem ahead_position (m : Machine) (n : Nat) : m.input.position ≤ (m.ahead n).input.position := by
  induction n with
  | zero => exact Nat.le_refl _
  | succ n ih =>
      rw [ahead_succ]
      exact Nat.le_trans ih (step_position _)

theorem ahead_position_le_size (h : m.input.position ≤ m.input.values.size) (n : Nat) :
    (m.ahead n).input.position ≤ m.input.values.size := by
  induction n with
  | zero => exact h
  | succ n ih =>
      rw [ahead_succ, ← ahead_values m n]
      exact step_position_le_size (by rwa [ahead_values])

/-! ## Runs on tapes that agree -/

/-- The run is over because it wanted a value that was not there. -/
def Starved (m : Machine) : Prop :=
  ∃ index count steps, m.result = some (.faulted index (.inputExhausted count) steps)

/-- Until the run is over for want of a value, the values that it reads are all that it sees. -/
theorem ahead_follows (hs : ¬ (m.ahead n).Starved)
    (hv : ∀ j < (m.ahead n).input.position, values[j]? = m.input.values[j]?) {j : Nat} (hj : j < n) :
    Follows (retaped · values) (m.ahead j) := by
  refine (unseen_retaped values).follows ?_
  obtain ⟨d, rfl⟩ := Nat.exists_eq_add_of_le hj
  rw [ahead_add, ahead_succ] at hs hv
  cases (m.ahead j).looks with
  | away h _ => exact h values
  | reads h _ hstep =>
      -- the value was under the head that has moved on, so it is one of those that agree
      refine h values ?_
      rw [ahead_values]
      refine hv _ (Nat.lt_of_lt_of_le ?_ (ahead_position _ d))
      rw [hstep]
      exact Nat.lt_succ_self _
  | pastEnd _ hstep =>
      rw [hstep, ahead_of_finished rfl] at hs
      exact absurd ⟨_, _, _, rfl⟩ hs

theorem Outcome.starved (h : m.Outcome m' none) (hm : m.finished = false) (hs : m'.Starved) :
    m' = m.fault (.inputExhausted m.input.values.size) ∧ m.input.values.size ≤ m.input.position := by
  obtain ⟨index, count, steps, hr⟩ := hs
  cases h with
  | idle h =>
      rw [hm] at h
      cases h
  | faulted _ hb _ =>
      cases hr
      cases hb with
      | meets _ hmeets =>
          cases hmeets with
          | inputExhausted _ hp => exact ⟨rfl, (InputTape.size_le_of_peek hp).2⟩
  | refused _ _ ht =>
      cases hr
      cases ht.of_fault.1
  | completed =>
      rw [after_result, result_eq_none hm] at hr
      split at hr <;> cases hr

/-- A run that is over for want of a value stood at the end of the tape before its last step. -/
theorem Proceeds.starved (h : m.Proceeds o n) (hm : ¬ m.Starved) (hs : (m.ahead n).Starved) :
    ∃ j < n, m.ahead n = (m.ahead j).fault (.inputExhausted m.input.values.size) ∧
      m.input.values.size ≤ (m.ahead j).input.position := by
  cases n with
  | zero => exact absurd hs hm
  | succ j =>
      have hj := h j (Nat.lt_succ_self j)
      have ho := (m.ahead j).step_outcome
      rw [hj.step, ← ahead_succ] at ho
      have hend := ho.starved hj.running hs
      rw [ahead_values] at hend
      exact ⟨j, Nat.lt_succ_self j, hend⟩

theorem not_starved_of_running (h : m.finished = false) : ¬ m.Starved := by
  rintro ⟨index, count, steps, hr⟩
  rw [result_eq_none h] at hr
  cases hr

/-- An execution that ends, but not for want of a value, does the same on every tape that has the values
that it read. -/
theorem execute_retaped (h : (m.execute fuel o).stop = .finished)
    (hn : ¬ (m.execute fuel o).machine.Starved)
    (hv : ∀ j < (m.execute fuel o).machine.input.position, values[j]? = m.input.values[j]?) :
    (m.retaped values).execute fuel o =
      { m.execute fuel o with machine := (m.execute fuel o).machine.retaped values } := by
  rw [execute_stop] at h
  obtain ⟨n, m', hle, hp, he, hl⟩ := loop_ended h
  rw [execute_of_ended hl] at hn hv ⊢
  have hn' : ¬ (m.ahead n).Starved := by
    cases he with
    | finished => exact hn
    | limit hf _ => exact not_starved_of_running hf
  have hpos : m'.input = (m.ahead n).input := by cases he <;> rfl
  have hfollow : ∀ j < n, Follows (retaped · values) (m.ahead j) :=
    fun j hj => ahead_follows hn' (fun i hi => hv i (by rwa [← hpos] at hi)) hj
  obtain ⟨rest, rfl⟩ := Nat.exists_eq_add_of_le hle
  rw [execute_of_ended ((unseen_retaped values).loop_of_ends hfollow hp he rest "")]
  rfl

/-- An execution that ends for want of a value has come to the end of the tape, and on a longer tape it
comes to the same place. -/
theorem execute_starved (hm : ¬ m.Starved) (hpos : m.input.position ≤ m.input.values.size)
    (h : (m.execute fuel o).stop = .finished) (hs : (m.execute fuel o).machine.Starved) :
    ∃ n, (m.execute fuel o).machine.input.position = m.input.values.size ∧
      (m.execute fuel o).machine.steps = m.steps + n ∧ (m.ahead n).finished = false ∧
      ((m.ahead n).fault (.inputExhausted m.input.values.size)).Same (m.execute fuel o).machine ∧
      ∀ values, (∀ j < m.input.values.size, values[j]? = m.input.values[j]?) →
        (m.retaped values).Proceeds o n ∧ (m.retaped values).ahead n = (m.ahead n).retaped values := by
  rw [execute_stop] at h
  obtain ⟨n, m', -, hp, he, hl⟩ := loop_ended h
  rw [execute_of_ended hl] at hs ⊢
  cases he with
  | limit hf hx =>
      obtain ⟨index, count, steps, hr⟩ := hs
      cases hr
  | finished hf =>
      obtain ⟨j, hj, hend, hle⟩ := hp.starved hm hs
      have hrun := (hp j hj).running
      have hpj := hp.mono (Nat.le_of_lt hj)
      have hposj := ahead_position_le_size hpos j
      rw [hend]
      refine ⟨j, Nat.le_antisymm hposj hle, hpj.steps hrun, hrun, .noted _ _ _, fun values hv => ?_⟩
      have hfollow : ∀ i < j, Follows (retaped · values) (m.ahead i) := fun i hi =>
        ahead_follows (not_starved_of_running hrun) (fun i' hi' => hv i' (Nat.lt_of_lt_of_le hi' hposj)) hi
      exact ⟨(unseen_retaped values).proceeds hfollow hpj, ahead_of_follows hfollow⟩

/-! ## New machines -/

theorem new_retaped (p : Program) (t t' : List Int) (output : OutputTape) :
    (Machine.new p (.ofList t) output).retaped t'.toArray = Machine.new p (.ofList t') output := by
  unfold Machine.new reset
  dsimp only
  cases p.first <;> rfl

theorem new_input (p : Program) (input : InputTape) (output : OutputTape) :
    (Machine.new p input output).input = input := by
  unfold Machine.new reset
  dsimp only
  cases p.first <;> rfl

theorem new_steps (p : Program) (input : InputTape) (output : OutputTape) :
    (Machine.new p input output).steps = 0 := by
  by_cases hz : p.size = 0
  · exact (reset_of_empty hz).2.1
  · exact (reset_of_nonempty hz).2.1

theorem new_not_starved (p : Program) (input : InputTape) (output : OutputTape) :
    ¬ (Machine.new p input output).Starved := by
  rintro ⟨index, count, steps, hr⟩
  cases (reset_faulted hr).1

/-- A run depends only on the input that it consumed. If the execution of a new machine ends, and not for
want of a value, then on every tape that begins with the values read it ends in the same way, with the
head at the same place. If it ends for want of a value, it has read the whole tape, and on every longer
tape the execution comes, after as many steps, to the machine in which it failed. -/
theorem execute_new_consumed {p : Program} {t : List Int} {output : OutputTape} {e : Execution}
    (he : (Machine.new p (.ofList t) output).execute fuel o = e) (hs : e.stop = .finished) :
    (¬ e.machine.Starved → ∀ t' : List Int,
      t'.take e.machine.input.position = t.take e.machine.input.position →
      (Machine.new p (.ofList t') output).execute fuel o =
        { e with machine := e.machine.retaped t'.toArray }) ∧
    (e.machine.Starved → e.machine.input.position = t.length ∧ ∀ u : List Int,
      (Machine.new p (.ofList (t ++ u)) output).Proceeds o e.machine.steps ∧
      ∃ m, (Machine.new p (.ofList (t ++ u)) output).ahead e.machine.steps = m ∧ m.finished = false ∧
        ((m.retaped t.toArray).fault (.inputExhausted t.length)).Same e.machine) := by
  subst he
  have hvalues : (Machine.new p (.ofList t) output).input.values = t.toArray := by rw [new_input]; rfl
  refine ⟨fun hn t' ht => ?_, fun hst => ?_⟩
  · rw [← new_retaped p t t' output]
    refine execute_retaped hs hn fun j hj => ?_
    rw [hvalues, List.getElem?_toArray, List.getElem?_toArray, ← List.getElem?_take_of_lt hj, ht,
      List.getElem?_take_of_lt hj]
  · have hpos : (Machine.new p (.ofList t) output).input.position ≤
        (Machine.new p (.ofList t) output).input.values.size := by
      rw [new_input]
      exact Nat.zero_le _
    obtain ⟨n, hend, hsteps, hrun, hsame, hlonger⟩ :=
      execute_starved (new_not_starved p _ output) hpos hs hst
    rw [new_steps, Nat.zero_add] at hsteps
    rw [hvalues, List.size_toArray] at hend hsame
    refine ⟨hend, fun u => ?_⟩
    obtain ⟨hproc, hahead⟩ := hlonger (t ++ u).toArray fun j hj => by
      rw [hvalues, List.size_toArray] at hj
      rw [hvalues, List.getElem?_toArray, List.getElem?_toArray, List.getElem?_append_left hj]
    rw [new_retaped] at hproc hahead
    rw [hsteps]
    refine ⟨hproc, _, hahead, hrun, ?_⟩
    rwa [retaped_retaped, retaped_eq_self ((ahead_values _ n).trans hvalues)]

/-- Reads a number and writes it. -/
def echo : Program := { instructions := #[{ opcode := .read, operand := some (.direct 1) },
  { opcode := .write, operand := some (.direct 1) }] }

/-- The number after the first makes no difference, and it makes one whether there is a first number. -/
theorem execute_new_consumed_echo :
    (Machine.new echo (.ofList [5])).execute 2 =
      { (Machine.new echo (.ofList [5, 9])).execute 2 with
        machine := ((Machine.new echo (.ofList [5, 9])).execute 2).machine.retaped #[5] } ∧
      ((Machine.new echo (.ofList [])).execute 2).machine.result =
        some (.faulted (some 0) (.inputExhausted 0) 0) ∧
      ((Machine.new echo (.ofList [])).execute 2).machine.input.position = 0 := by
  have hfed : ¬ ((Machine.new echo (.ofList [5, 9])).execute 2).machine.Starved := by
    rintro ⟨index, count, steps, hr⟩
    have hr' : ((Machine.new echo (.ofList [5, 9])).execute 2).machine.result = some (.halted 2) := by
      decide +kernel
    rw [hr'] at hr
    cases hr
  have hr : ((Machine.new echo (.ofList [])).execute 2).machine.result =
      some (.faulted (some 0) (.inputExhausted 0) 0) := by decide +kernel
  refine ⟨?_, hr, ?_⟩
  · exact (execute_new_consumed (t := [5, 9]) rfl (by decide +kernel)).1 hfed [5] (by decide +kernel)
  · exact ((execute_new_consumed (t := []) rfl (by decide +kernel)).2 ⟨_, _, _, hr⟩).1

end Machine
end RandomAccess

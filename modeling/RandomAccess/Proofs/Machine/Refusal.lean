import RandomAccess.Proofs.Machine.Consumption
import RandomAccess.Proofs.Machine.Output
import RandomAccess.Proofs.Text.Lines

/-!
# A sink that refuses a line

As long as the sink takes the lines, a machine with a sink goes beside the machine without one. Where the
sink refuses the first line, the value is on the tape but its line is not in the sink, and the instruction
that wrote it does not complete.
-/

namespace RandomAccess

/-! ## What the sink holds -/

/-- A sink with room for `capacity` lines that has got these values, each in decimal and on a line of its
own. -/
def Sink.holding (capacity : Option Nat) (reason : String) (values : Array Int) : Sink where
  content := Text.unlines (values.toList.map toString)
  capacity := capacity.map (· - values.size)
  reason := reason

theorem Sink.holding_empty (capacity : Option Nat) (reason : String) :
    holding capacity reason #[] = { capacity, reason } := by
  cases capacity <;> rfl

variable {capacity : Option Nat} {reason : String}

theorem Sink.write_holding {values : Array Int} (hc : ∀ c, capacity = some c → values.size < c) (v : Int) :
    (holding capacity reason values).write (OutputTape.line v) = .ok (holding capacity reason (values.push v)) := by
  have hcontent : Text.unlines (values.toList.map toString) ++ OutputTape.line v =
      Text.unlines ((values.push v).toList.map toString) := by
    simp [OutputTape.line_eq]
  cases capacity with
  | none => simp only [write, holding, hcontent]; rfl
  | some c =>
      obtain ⟨d, rfl⟩ := Nat.exists_eq_add_of_lt (hc c rfl)
      have hroom : values.size + d + 1 - values.size = d + 1 := by omega
      have hleft : values.size + d + 1 - (values.push v).size = d := by
        rw [Array.size_push]
        omega
      simp only [write, holding, Option.map_some, hroom, hleft, hcontent]
      rfl

theorem Sink.write_holding_full {values : Array Int} (line : String) :
    (holding (some values.size) reason values).write line = .error .full := by
  simp [write, holding]

namespace OutputTape

variable {t : OutputTape} {v : Int}

/-- The tape with a sink that has got all its values. -/
def sunk (t : OutputTape) (capacity : Option Nat) (reason : String) : OutputTape :=
  { t with sink := some (.holding capacity reason t.values) }

theorem write_of_sink_none (hs : t.sink = none) (v : Int) : t.write v = (t.append v, none) := by
  simp only [write, append, hs]

theorem write_sunk (hv : Numeral.writable v = true) (hc : ∀ c, capacity = some c → t.values.size < c) :
    (t.sunk capacity reason).write v = ((t.append v).sunk capacity reason, none) := by
  simp only [write, sunk, append, hv, Bool.not_true, Bool.false_eq_true, if_false, Sink.write_holding hc]

theorem write_sunk_full (hv : Numeral.writable v = true) :
    (t.sunk (some t.values.size) reason).write v =
      ((t.sunk (some t.values.size) reason).append v, some (.fault (.outputRefused reason))) := by
  simp only [write, sunk, append, hv, Bool.not_true, Bool.false_eq_true, if_false, Sink.write_holding_full]
  rfl

end OutputTape

namespace Machine

variable {m m' : Machine} {k v : Int} {i : Instruction} {o : RunOptions} {fuel n : Nat}

/-! ## Lines that are taken -/

/-- The machine with a sink that has got all its output. -/
def sunk (m : Machine) (capacity : Option Nat) (reason : String) : Machine :=
  { m with output := m.output.sunk capacity reason }

theorem exchange_sunk (capacity : Option Nat) (reason : String) : Exchange (sunk · capacity reason) where
  program _ := rfl
  registers _ := rfl
  ip _ := rfl
  steps _ := rfl
  result _ := rfl
  fault _ _ := rfl
  complete m k i e := by
    rw [complete_eq, complete_eq]
    split <;> rfl

theorem new_sunk (p : Program) (input : InputTape) :
    (Machine.new p input).sunk capacity reason =
      Machine.new p input { sink := some { capacity, reason } } := by
  rw [← Sink.holding_empty]
  unfold Machine.new reset
  dsimp only
  cases p.first <;> rfl

theorem step_of_output (hs : m.output.sink = none) (hf : m.finished = false)
    (hp : m.plan = .ok (k, i, .output v)) :
    m.step.1.output = m.output.append v ∧ m.step.1.registers = m.registers := by
  have hw : m.perform (.output v) = ({ m with output := m.output.append v }, none) := by
    simp only [perform, OutputTape.write_of_sink_none hs]
  rw [step_of_perform_none hf hp (by rw [hw])]
  split
  · simp [after_eq, record, hw]
  · simp [hw]

/-- The values of the tape have numerals, and the sink has room for them. -/
structure Receivable (m : Machine) (capacity : Option Nat) : Prop where
  writable : ∀ v ∈ m.output.values, Numeral.writable v = true
  room : ∀ c, capacity = some c → m.output.values.size ≤ c

theorem Receivable.earlier {j : Nat} (h : (m.ahead n).Receivable capacity) (hj : j ≤ n) :
    (m.ahead j).Receivable capacity where
  writable v hv := h.writable v (ahead_values_mem hj hv)
  room c hc := Nat.le_trans (ahead_values_size hj) (h.room c hc)

theorem follows_sunk (hs : m.output.sink = none) (h : m.step.1.Receivable capacity) (reason : String) :
    Follows (sunk · capacity reason) m := by
  refine (exchange_sunk capacity reason).follows (fun _ => plan_congr rfl rfl rfl rfl) fun k i e hf hp => ?_
  cases e with
  | output v =>
      have hstep := (step_of_output hs hf hp).1
      have hv := h.writable v (by rw [hstep]; exact Array.mem_push_self)
      have hc (c : Nat) (hc : capacity = some c) : m.output.values.size < c := by
        have hle := h.room c hc
        rw [hstep, OutputTape.append, Array.size_push] at hle
        exact hle
      simp only [perform, sunk, OutputTape.write_sunk hv hc, OutputTape.write_of_sink_none hs]
  | _ => rfl

theorem ahead_follows_sunk (hs : m.output.sink = none) (h : (m.ahead n).Receivable capacity)
    (reason : String) : ∀ j < n, Follows (sunk · capacity reason) (m.ahead j) := by
  intro j hj
  refine follows_sunk (ahead_sink hs j) ?_ reason
  rw [← ahead_succ]
  exact h.earlier hj

/-- A sink that has room for all the output changes nothing. -/
theorem execute_sunk (hs : m.output.sink = none) (h : (m.execute fuel o).stop = .finished)
    (hr : (m.execute fuel o).machine.Receivable capacity) (reason : String) :
    (m.sunk capacity reason).execute fuel o =
      { m.execute fuel o with machine := (m.execute fuel o).machine.sunk capacity reason } := by
  rw [execute_stop] at h
  obtain ⟨n, m', hle, hp, he, hl⟩ := loop_ended h
  rw [execute_of_ended hl] at hr ⊢
  have hr : (m.ahead n).Receivable capacity := by
    cases he <;> exact ⟨hr.writable, hr.room⟩
  obtain ⟨rest, rfl⟩ := Nat.exists_eq_add_of_le hle
  have hfollow := ahead_follows_sunk hs hr reason
  rw [execute_of_ended ((exchange_sunk capacity reason).loop_of_ends hfollow hp he rest "")]
  rfl

/-! ## The line that is refused -/

theorem tracedStep_congr (hp : m'.program = m.program) (hk : m'.ip = m.ip)
    (hr : m'.step.1.registers = m.step.1.registers) (hs : m'.step.2 = m.step.2) :
    (m'.tracedStep o).2 = (m.tracedStep o).2 := by
  have hbefore : m'.announcement = m.announcement := by
    unfold announcement
    rw [hp, hk]
  have hafter : m'.step.1.display o.window = m.step.1.display o.window := by
    unfold display
    rw [hr]
  unfold tracedStep
  rw [hbefore]
  rcases hm : m.step with ⟨m₁, x⟩
  rcases hm' : m'.step with ⟨m₁', x'⟩
  rw [hm, hm'] at hs hafter
  cases hs
  cases o.debug with
  | false => rfl
  | true =>
      cases m.announcement with
      | error x => rfl
      | ok t =>
          cases x with
          | some x => rfl
          | none =>
              simp only [if_true, hafter]
              cases m₁.display o.window <;> rfl

/-- The machine with a sink that has got all its output and takes no more. -/
def full (m : Machine) (reason : String) : Machine := m.sunk (some m.output.values.size) reason

/-- The machine after its sink refused the line of `v`. -/
def refused (m : Machine) (reason : String) (v : Int) : Machine :=
  { m.full reason with output := (m.full reason).output.append v }.fault (.outputRefused reason)

theorem refused_result (m : Machine) (reason : String) (v : Int) :
    (m.refused reason v).result = some (.faulted m.ip (.outputRefused reason) m.steps) := rfl

theorem refused_values (m : Machine) (reason : String) (v : Int) :
    (m.refused reason v).output.values = m.output.values.push v := rfl

theorem refused_sink (m : Machine) (reason : String) (v : Int) :
    (m.refused reason v).output.sink = some
      { content := Text.unlines (m.output.values.toList.map toString)
        capacity := some 0
        reason := reason } := by
  simp [refused, full, sunk, Machine.fault, OutputTape.append, OutputTape.sunk, Sink.holding]

theorem step_full (hw : m.Writing k v) (hv : Numeral.writable v = true) (reason : String) :
    (m.full reason).step = (m.refused reason v, none) := by
  obtain ⟨i, hf, hp⟩ := hw.plan_eq
  have hrun : (m.full reason).finished = false := hf.running
  have hplan : (m.full reason).plan = .ok (k, i, .output v) := (plan_congr rfl rfl rfl rfl).trans hp
  have hx : (m.full reason).perform (.output v) =
      ({ m.full reason with output := (m.full reason).output.append v },
        some (.fault (.outputRefused reason))) := by
    simp only [perform, full, sunk, OutputTape.write_sunk_full hv]
  rw [step_of_perform_some hrun hplan (by rw [hx]), hx]
  rfl

theorem returns_full (hs : m.output.sink = none) (hm : m.Returns o) (hw : m.Writing k v)
    (hv : Numeral.writable v = true) (reason : String) : (m.full reason).Returns o where
  running := hm.running
  within := hm.within
  returned := by
    obtain ⟨i, hf, hp⟩ := hw.plan_eq
    have hstep := step_full hw hv reason
    -- what is printed around the step depends on the registers, which writing leaves alone
    have htraced : ((m.full reason).tracedStep o).2 = (m.tracedStep o).2 := by
      refine tracedStep_congr rfl rfl ?_ ?_
      · rw [hstep, (step_of_output hs hf.running hp).2]
        rfl
      · rw [hstep, hm.step]
    rw [htraced]
    exact hm.returned

/-- The round number `j` of an execution has the instruction at index `k` write the value number `c` of the
output, all counted from zero. -/
structure WritesIn (m : Machine) (o : RunOptions) (j : Nat) (k : Int) (c : Nat) : Prop where
  proceeds : m.Proceeds o (j + 1)
  before : (m.ahead j).output.values.size = c
  writes : ∃ v, (m.ahead j).Writing k v ∧
    (m.ahead (j + 1)).output.values = (m.ahead j).output.values.push v

theorem execute_output (hx : ∀ x, (m.execute fuel o).stop ≠ .failed x) :
    ∃ n ≤ fuel, m.Proceeds o n ∧ (m.execute fuel o).machine.output = (m.ahead n).output := by
  have hstop := execute_stop m fuel o
  obtain ⟨n, rest, rfl, hp, hs⟩ := loop_stops m o fuel ""
  refine ⟨n, Nat.le_add_right n rest, hp, ?_⟩
  generalize hl : m.loop o (n + rest) "" = e at hs hstop
  cases hs with
  | ended he =>
      rw [execute_of_ended hl]
      cases he <;> rfl
  | failed => exact absurd hstop (hx _)
  | outOfFuel =>
      rw [execute_of_broken (by rw [hl]; nofun), hl]
      rfl

theorem Proceeds.execute_of_refused {j c : Nat} (hs : m.output.sink = none) (hp : m.Proceeds o (j + 1))
    (hj : j < fuel) (hr : (m.ahead j).Receivable (some c)) (hc : (m.ahead j).output.values.size = c)
    (hw : (m.ahead j).Writing k v) (hv : Numeral.writable v = true) (reason : String) :
    ((m.sunk (some c) reason).execute fuel o).stop = .finished ∧
      ((m.ahead j).refused reason v).Same ((m.sunk (some c) reason).execute fuel o).machine := by
  have hfollow := ahead_follows_sunk hs hr reason
  have hahead : (m.sunk (some c) reason).ahead j = (m.ahead j).full reason := by
    rw [ahead_of_follows (φ := (sunk · (some c) reason)) hfollow, full, hc]
  have hstep : (m.sunk (some c) reason).ahead (j + 1) = (m.ahead j).refused reason v := by
    rw [ahead_succ, hahead, step_full hw hv]
  have hproc : (m.sunk (some c) reason).Proceeds o (j + 1) := by
    intro i hi
    rcases Nat.lt_succ_iff_lt_or_eq.mp hi with hi | rfl
    · exact (exchange_sunk (some c) reason).proceeds hfollow (hp.mono (Nat.le_succ j)) i hi
    · rw [hahead]
      exact returns_full (ahead_sink hs i) (hp i (Nat.lt_succ_self i)) hw hv reason
  obtain ⟨rest, rfl⟩ := Nat.exists_eq_add_of_le hj
  have hends : ((m.sunk (some c) reason).ahead (j + 1)).Ends o ((m.ahead j).refused reason v) := by
    rw [hstep]
    exact .finished rfl
  rw [execute_of_ended ((hproc.loop_eq rest "").trans (hends.loop_eq rest _))]
  exact ⟨rfl, .noted _ _ _⟩

/-- The execution of a new machine with a sink that has room for `capacity` lines, beside the execution
without a sink. If that one ends with no more values than the sink has room for, both do the same and the
sink has got all values, each in decimal and on a line of its own. If it writes more values, the first one
that the sink has no room for is on the tape and not in the sink, and the run ends at the instruction that
wrote it, which is not counted. -/
theorem execute_refused {p : Program} {input : InputTape} {e b : Execution}
    (he : (Machine.new p input).execute fuel o = e) (hx : ∀ x, e.stop ≠ .failed x)
    (hv : ∀ v ∈ e.machine.output.values, Numeral.writable v = true)
    (hb : (Machine.new p input { sink := some { capacity, reason } }).execute fuel o = b) :
    (e.stop = .finished → (∀ c, capacity = some c → e.machine.output.values.size ≤ c) →
      b = { e with machine := e.machine.sunk capacity reason } ∧
        b.machine.output.sink = some
          { content := Text.unlines (e.machine.output.values.toList.map toString)
            capacity := capacity.map (· - e.machine.output.values.size)
            reason := reason }) ∧
    ∀ c, capacity = some c → c < e.machine.output.values.size →
      ∃ j k, (Machine.new p input).WritesIn o j k c ∧ ((Machine.new p input).ahead j).steps = j ∧
        b.stop = .finished ∧ b.machine.result = some (.faulted (some k) (.outputRefused reason) j) ∧
        b.machine.output.values.toList = e.machine.output.values.toList.take (c + 1) ∧
        b.machine.output.sink = some
          { content := Text.unlines ((e.machine.output.values.toList.take c).map toString)
            capacity := some 0
            reason := reason } := by
  have hs : (Machine.new p input).output.sink = none := by simp [Machine.new]
  subst he hb
  rw [← new_sunk]
  refine ⟨fun hstop hc => ?_, ?_⟩
  · rw [execute_sunk hs hstop ⟨hv, hc⟩ reason]
    exact ⟨rfl, rfl⟩
  rintro c rfl hlt
  obtain ⟨n, hn, hp, hout⟩ := execute_output hx
  rw [hout] at hv hlt ⊢
  have hempty : (Machine.new p input).output.values.size ≤ c := by simp [Machine.new]
  obtain ⟨j, k, v, hj, hsize, hw, hpush⟩ := exists_writing hempty hlt
  have hpj : (Machine.new p input).Proceeds o (j + 1) := hp.mono hj
  have hwritable : Numeral.writable v = true := by
    refine hv v (ahead_values_mem hj ?_)
    rw [hpush]
    exact Array.mem_push_self
  have hroom : ((Machine.new p input).ahead j).Receivable (some c) :=
    ⟨fun u hu => hv u (ahead_values_mem (Nat.le_of_lt hj) hu), by rintro d ⟨⟩; exact Nat.le_of_eq hsize⟩
  obtain ⟨hstop, hsame⟩ :=
    hpj.execute_of_refused hs (Nat.lt_of_lt_of_le hj hn) hroom hsize hw hwritable reason
  have hsteps : ((Machine.new p input).ahead j).steps = j := by
    rw [(hpj.mono (Nat.le_succ j)).steps (hpj j (Nat.lt_succ_self j)).running, new_steps, Nat.zero_add]
  obtain ⟨i, hf, -⟩ := hw.plan_eq
  refine ⟨j, k, ⟨hpj, hsize, v, hw, hpush⟩, hsteps, hstop, ?_, ?_, ?_⟩
  · rw [hsame.result, refused_result, hf.pointer, hsteps]
  · rw [hsame.output, refused_values, ← hpush, ahead_values_take hj, hpush, Array.size_push, hsize]
  · rw [hsame.output, refused_sink, ahead_values_take (Nat.le_of_lt hj), hsize]

/-- Never stops to write the same number. -/
def babble : Program :=
  .ofInstructions [⟨.write, some (.constant 7), some "again"⟩, ⟨.jump, some (.tag "again"), none⟩]

/-- A sink with room for two lines ends a run that would not end, after two rounds of two instructions; a
sink with room for one line does not disturb a run that writes one number. -/
theorem execute_refused_babble :
    ((Machine.new babble).execute 9).stop = .outOfFuel ∧
      (∃ j k, (Machine.new babble).WritesIn {} j k 2 ∧
        ((Machine.new babble {} { sink := some { capacity := some 2 } }).execute 9).machine.result =
          some (.faulted (some k) (.outputRefused "disk full") j)) ∧
      ((Machine.new babble {} { sink := some { capacity := some 2 } }).execute 9).machine.output.sink =
        some { content := "7\n7\n", capacity := some 0 } ∧
      (Machine.new echo (.ofList [-5]) { sink := some { capacity := some 1 } }).execute 9 =
        { (Machine.new echo (.ofList [-5])).execute 9 with
          machine := ((Machine.new echo (.ofList [-5])).execute 9).machine.sunk (some 1) "disk full" } ∧
      ((Machine.new echo (.ofList [-5]) { sink := some { capacity := some 1 } }).execute 9).machine.output.sink =
        some { content := "-5\n", capacity := some 0 } := by
  have hstop : ((Machine.new babble).execute 9).stop = .outOfFuel := by decide +kernel
  have hvalues : ((Machine.new babble).execute 9).machine.output.values = #[7, 7, 7, 7, 7] := by
    decide +kernel
  have hstop' : ((Machine.new echo (.ofList [-5])).execute 9).stop = .finished := by decide +kernel
  have hvalues' : ((Machine.new echo (.ofList [-5])).execute 9).machine.output.values = #[-5] := by
    decide +kernel
  have hfails (x : Failure) : ((Machine.new babble).execute 9).stop ≠ .failed x := by simp [hstop]
  have hfails' (x : Failure) : ((Machine.new echo (.ofList [-5])).execute 9).stop ≠ .failed x := by
    simp [hstop']
  obtain ⟨b, hb⟩ : ∃ b, (Machine.new babble {} { sink := some { capacity := some 2 } }).execute 9 = b :=
    ⟨_, rfl⟩
  obtain ⟨b', hb'⟩ : ∃ b',
      (Machine.new echo (.ofList [-5]) { sink := some { capacity := some 1 } }).execute 9 = b' := ⟨_, rfl⟩
  obtain ⟨j, k, hw, -, -, hr, -, hsink⟩ := (execute_refused rfl hfails (by rw [hvalues]; decide +kernel) hb).2
    2 rfl (by rw [hvalues]; decide)
  obtain ⟨hsame, hsink'⟩ := (execute_refused rfl hfails' (by rw [hvalues']; decide +kernel) hb').1 hstop'
    (by rw [hvalues']; simp)
  rw [hvalues] at hsink
  rw [hvalues'] at hsink'
  rw [hb, hb']
  exact ⟨hstop, ⟨j, k, hw, hr⟩, hsink, hsame, hsink'⟩

end Machine
end RandomAccess

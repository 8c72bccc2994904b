import RandomAccess.Proofs.Machine.Refusal
import RandomAccess.Proofs.Machine.Tracing

/-!
# Runs that deliver their output

The run of a loaded program whose numbers all have numerals does not break off: if it ends, it ends with a
result. A file for its output changes nothing about the run and gets the line of every value.
-/

namespace RandomAccess

open Abstract

/-! ## Sinks that the tape opened itself -/

theorem Sink.write_owned (s : Sink) (l : String) :
    Sink.write { s with owned := true } l = (s.write l).map fun s => { s with owned := true } := by
  unfold write
  dsimp only
  repeat' split
  all_goals rfl

namespace OutputTape

variable {t : OutputTape}

/-- The tape with its sink marked as its own. -/
def owning (t : OutputTape) : OutputTape :=
  { t with sink := t.sink.map fun s => { s with owned := true } }

theorem write_owning (t : OutputTape) (v : Int) :
    t.owning.write v = ((t.write v).1.owning, (t.write v).2) := by
  obtain ⟨values, sink⟩ := t
  cases sink with
  | none => rfl
  | some s =>
      cases hv : Numeral.writable v with
      | false => simp [write, owning, hv]
      | true =>
          simp only [write, owning, hv, Option.map_some, Sink.write_owned, Bool.not_true,
            Bool.false_eq_true, if_false]
          rcases s.write (line v) with (_ | _) | _ <;> rfl

/-- The tape with a file of its own that has got all its values, each in decimal and on a line of its own. -/
def filed (t : OutputTape) : OutputTape :=
  { t with sink := some { content := Text.unlines (t.values.toList.map toString), owned := true } }

theorem close_of_sink_none (h : t.sink = none) : t.close = t := by
  obtain ⟨values, sink⟩ := t
  cases h
  rfl

end OutputTape

theorem Registers.writable_cell {r : Registers} (h : ∀ v ∈ r.cells, Numeral.writable v = true) (k : Nat) :
    Numeral.writable (r.cell k) = true := by
  unfold cell
  rw [Array.getD_eq_getD_getElem?]
  cases hk : r.cells[k]? with
  | none => decide +kernel
  | some v => exact h v (Array.mem_of_getElem? hk)

namespace Machine

variable {m m' : Machine} {o : RunOptions} {fuel n : Nat} {k v : Int}

/-! ## Numbers that have numerals -/

/-- As long as the execution goes on, every number in the registers has a numeral. -/
def Moderate (m : Machine) (o : RunOptions) : Prop :=
  ∀ n, m.Proceeds o n → ∀ k, Numeral.writable ((m.ahead n).registers.cell k) = true

theorem Writing.writable (h : m.Writing k v) (hp : m.program.Ready)
    (hm : ∀ k, Numeral.writable (m.registers.cell k) = true) : Numeral.writable v = true := by
  obtain ⟨i, o, hf, -, ho, hv, -⟩ := h
  have hi := hp.writable i hf.mem
  rw [Instruction.writable, ho, Option.all_some] at hi
  cases hv with
  | constant v => exact hi
  | register _ => exact hm _

theorem not_overlong (hs : m.output.sink = none)
    (hm : ∀ k, Numeral.writable (m.registers.cell k) = true) : ¬ m.Overlong := by
  rintro (⟨⟨i, n, -, -, -, -, rfl, -⟩, hj⟩ | ⟨-, hs', -⟩)
  · rw [hm n] at hj
    cases hj
  · exact hs' hs

theorem Proceeds.values_writable (h : m.Proceeds o n) (horder : ∀ n, (m.ahead n).Orderly)
    (hm : m.Moderate o) (hv : ∀ v ∈ m.output.values, Numeral.writable v = true) :
    ∀ v ∈ (m.ahead n).output.values, Numeral.writable v = true := by
  induction n with
  | zero => exact hv
  | succ n ih =>
      have hn := h.mono (Nat.le_succ n)
      rw [ahead_succ]
      rcases (m.ahead n).step_outcome.values_eq with heq | ⟨k, u, hw, heq⟩
      · rw [heq]
        exact ih hn
      · intro v hmem
        rw [heq, Array.mem_push] at hmem
        rcases hmem with hmem | rfl
        · exact ih hn v hmem
        · exact hw.writable (horder n).ready (hm n hn)

/-! ## Runs without a sink -/

theorem drive_replicate (m : Machine) (n : Nat) : m.drive (List.replicate n .step) = m.ahead n := by
  induction n generalizing m with
  | zero => rfl
  | succ n ih => exact ih m.step.1

/-- The execution does not break off. -/
theorem execute_finished (horder : ∀ n, (m.ahead n).Orderly) (hs : m.output.sink = none)
    (hm : m.Moderate o) (hd : o.debug = false) (hx : (m.execute fuel o).stop ≠ .outOfFuel) :
    (m.execute fuel o).stop = .finished := by
  rw [execute_stop] at hx ⊢
  obtain ⟨n, rest, rfl, hp, hstop⟩ := loop_stops m o fuel ""
  generalize m.loop o (n + rest) "" = e at hx hstop
  cases hstop with
  | ended => rfl
  | failed _ _ hstep =>
      rw [tracedStep_of_silent hd] at hstep
      have hnone := (horder n).returns (not_overlong (ahead_sink hs n) (hm n hp)) (m.ahead n).step_outcome
      rw [hnone] at hstep
      cases hstep
  | outOfFuel => exact absurd rfl hx

theorem execute_printed (m : Machine) (fuel : Nat) (hd : o.debug = false) :
    (m.execute fuel o).printed = "" := by
  have hsilent : o.silent o.window = o := by rw [RunOptions.silent, ← hd]
  rw [← hsilent]
  exact execute_silent_printed m o o.window fuel

theorem execute_result (h : (m.execute fuel o).stop = .finished) :
    ∃ r, (m.execute fuel o).machine.result = some r := by
  rw [execute_stop] at h
  obtain ⟨n, m', -, -, he, hl⟩ := loop_ended h
  rw [execute_of_ended hl]
  cases he with
  | finished hf => exact Option.isSome_iff_exists.mp hf
  | limit => exact ⟨_, rfl⟩

theorem execute_receivable (horder : ∀ n, (m.ahead n).Orderly) (hm : m.Moderate o)
    (hv : ∀ v ∈ m.output.values, Numeral.writable v = true) (h : (m.execute fuel o).stop = .finished) :
    (m.execute fuel o).machine.Receivable none := by
  have hx (x : Failure) : (m.execute fuel o).stop ≠ .failed x := by simp [h]
  obtain ⟨n, -, hp, hout⟩ := execute_output hx
  refine ⟨?_, nofun⟩
  rw [hout]
  exact hp.values_writable horder hm hv

/-! ## Lines that nothing refused -/

/-- Without a sink no line was refused. -/
structure Unrefused (m : Machine) : Prop where
  sink : m.output.sink = none
  faulted : ∀ index f n, m.result = some (.faulted index f n) → f.kind ≠ .outputRefused

theorem Unrefused.fault (h : m.Unrefused) {f : Fault} (hf : f.kind ≠ .outputRefused) :
    (m.fault f).Unrefused where
  sink := h.sink
  faulted := by
    rintro index f n ⟨⟩
    exact hf

theorem Outcome.unrefused {x : Option Failure} (ho : m.Outcome m' x) (h : m.Unrefused) : m'.Unrefused := by
  have hsink := ho.sink_eq_none h.sink
  cases ho with
  | idle | unreported => exact h
  | faulted _ hb _ => exact h.fault hb.kind_ne
  | refused _ _ ht =>
      cases ht with
      | refused hs => rw [h.sink] at hs; cases hs
  | unsent => exact ⟨hsink, h.faulted⟩
  | completed =>
      refine ⟨hsink, fun index f n hr => h.faulted index f n ?_⟩
      rw [after_result] at hr
      split at hr
      · cases hr
      · exact hr
  | uncounted => exact ⟨hsink, by simpa using h.faulted⟩

theorem kept_unrefused : Kept Unrefused where
  step m h := m.step_outcome.unrefused h
  limit _ _ h := h.fault (by simp [Fault.kind])
  openTrace _ _ h := ⟨h.sink, h.faulted⟩
  closeTrace _ _ h := ⟨h.sink, h.faulted⟩

theorem Unrefused.new (p : Program) (input : InputTape) : (Machine.new p input).Unrefused := by
  refine ⟨by simp [Machine.new], fun index f n h => ?_⟩
  rw [(reset_faulted h).1]
  simp [Fault.kind]

/-! ## Runs of loaded programs -/

theorem Orderly.new_ahead {lines : List (List Char)} {p : Program} (h : Program.ofLines lines = .ok p)
    (input : InputTape) (n : Nat) :
    ((Machine.new p input).ahead n).Orderly := by
  rw [← drive_replicate]
  exact .drive h input (by simp [OutputTape.Open]) _

/-- With a file on its output tape the run is the same, and the file has got all its output. -/
theorem execute_new_filed {p : Program} {input : InputTape}
    (hx : ((Machine.new p input).execute fuel o).stop = .finished)
    (hr : ((Machine.new p input).execute fuel o).machine.Receivable none) :
    (Machine.new p input { sink := some { owned := true } }).execute fuel o =
      { (Machine.new p input).execute fuel o with
        machine := ((Machine.new p input).execute fuel o).machine.mapOutput (·.filed) } := by
  have hnew : Machine.new p input { sink := some { owned := true } } =
      ((Machine.new p input).sunk none "disk full").mapOutput (·.owning) := by
    rw [new_sunk]
    exact (new_mapOutput p input { sink := some {} } (·.owning)).symm
  rw [hnew, execute_mapOutput OutputTape.write_owning, execute_sunk (by simp [Machine.new]) hx hr]
  rfl

end Machine
end RandomAccess

import RandomAccess.Proofs.Machine.Atomicity
import RandomAccess.Proofs.Machine.Control
import RandomAccess.Proofs.Program.Soundness

/-!
# Runs of sound programs

What loading guarantees rules out some of the faults that a run may end with, and tells where others come
from.
-/

namespace RandomAccess

open Abstract

/-- The fault may be met at `index` in a run of the program. -/
structure Program.Admits (p : Program) (index : Option Int) (f : Fault) : Prop where
  unknownLabel : f.kind ≠ .unknownLabel
  emptyProgram : f.kind = .emptyProgram → p.size = 0
  invalidIndex : f.kind = .invalidIndex → ∃ (k : Nat) (i : Instruction) (j : Int),
    index = some (k : Int) ∧ p.instructions[k]? = some i ∧ i.operand = some (.indirect j)

/-- The other faults may be met anywhere. -/
theorem Program.Admits.of_kind {p : Program} {index : Option Int} {f : Fault}
    (h : f.kind ∉ [Fault.Kind.unknownLabel, .emptyProgram, .invalidIndex]) : p.Admits index f := by
  simp only [List.mem_cons, List.not_mem_nil, or_false, not_or] at h
  obtain ⟨hlabel, hempty, hindex⟩ := h
  exact ⟨hlabel, fun hk => absurd hk hempty, fun hk => absurd hk hindex⟩

/-- In a sound program only an indirect operand leads to a register that does not exist. -/
theorem Program.Sound.indirect {p : Program} (hp : p.Sound) {i : Instruction} (hi : i ∈ p.instructions)
    {o : Operand} (ho : i.operand = some o) {memory : Nat → Int} {j : Int} (hj : Strays memory o j) :
    ∃ n : Nat, o = .indirect n ∧ memory n = j := by
  have hreg := hp.register i hi
  cases hj with
  | lookup hj => exact absurd hj (Int.not_lt.mpr (hreg j (Or.inr ho)))
  | register hn hj =>
      cases hn with
      | direct j => exact absurd hj (Int.not_lt.mpr (hreg j (Or.inl ho)))
      | indirect n => exact ⟨n, rfl, rfl⟩

namespace Machine

variable {m m' : Machine} {p : Program} {k : Int} {i : Instruction} {f : Fault}

theorem Meets.admits (h : m.Meets i f) (hp : m.program.Sound) (hf : m.Fetches k i) :
    m.program.Admits (some k) f := by
  cases h with
  | illegalAddressing | divisionByZero | accumulatorInput | inputExhausted | accumulatorOutput =>
      exact .of_kind (by simp [Fault.kind])
  | invalidIndex ho _ hj =>
      obtain ⟨n, rfl, hi⟩ := Program.at?_eq_some hf.instruction
      obtain ⟨j, rfl, -⟩ := hp.indirect hf.mem ho hj
      exact ⟨by simp [Fault.kind], by simp [Fault.kind], fun _ => ⟨n, i, j, rfl, hi, ho⟩⟩
  | unknownLabel ho ht =>
      obtain ⟨t, ht'⟩ := hp.exists_target hf.mem ho
      rw [ht] at ht'
      cases ht'

theorem Blocked.admits (h : m.Blocked f) (hp : m.program.Sound) : m.program.Admits m.ip f := by
  cases h with
  | lost _ => exact .of_kind (by simp [Fault.kind])
  | meets hf hm =>
      rw [hf.pointer]
      exact hm.admits hp hf

/-- The machine runs the program, and met no fault that the program does not admit. -/
structure Admissible (p : Program) (m : Machine) : Prop where
  program : m.program = p
  faulted : ∀ index f n, m.result = some (.faulted index f n) → p.Admits index f

theorem Admissible.fault (h : m.Admissible p) (hf : p.Admits m.ip f) : (m.fault f).Admissible p where
  program := h.program
  faulted := by
    rintro index f n ⟨⟩
    exact hf

/-- What one step keeps. -/
theorem Outcome.admissible {x : Option Failure} (ho : m.Outcome m' x) (hp : p.Sound)
    (h : m.Admissible p) : m'.Admissible p := by
  obtain ⟨rfl, hr⟩ := h
  have h : m.Admissible m.program := ⟨rfl, hr⟩
  -- a fault comes from a blocked instruction or from the sink; all else keeps the result or halts
  cases ho with
  | idle _ => exact h
  | faulted _ hb _ => exact h.fault (hb.admits hp)
  | unreported _ _ _ => exact h
  | @refused k i v t f hf hc ht =>
      have ht' : ({ m with output := t } : Machine).Admissible m.program := ⟨rfl, hr⟩
      exact ht'.fault (.of_kind (by simp [ht.of_fault.1]))
  | unsent _ _ _ _ => exact ⟨rfl, hr⟩
  | completed _ _ _ _ =>
      refine ⟨after_program, fun index f n hn => hr index f n ?_⟩
      rw [after_result] at hn
      split at hn
      · cases hn
      · exact hn
  | uncounted _ _ _ _ => exact ⟨perform_program, by simpa using hr⟩

theorem kept_admissible (hp : p.Sound) : Kept (Admissible p) where
  step := fun m h => m.step_outcome.admissible hp h
  limit := fun _ _ h => h.fault (.of_kind (by simp [Fault.kind]))
  openTrace := fun _ _ h => ⟨h.program, h.faulted⟩
  closeTrace := fun _ _ h => ⟨h.program, h.faulted⟩

theorem Admissible.new (p : Program) (input : InputTape) (output : OutputTape) :
    (Machine.new p input output).Admissible p := by
  refine ⟨by simp [Machine.new], fun index f n h => ?_⟩
  obtain ⟨rfl, hz⟩ := reset_faulted h
  exact ⟨by simp [Fault.kind], fun _ => hz, by simp [Fault.kind]⟩

/-- The run of a program without instructions is over before any call. -/
theorem drive_of_empty (hz : p.size = 0) (input : InputTape) (output : OutputTape) (calls : List Call) :
    ((Machine.new p input output).drive calls).result = some (.faulted none .emptyProgram 0) := by
  have hr : (Machine.new p input output).result = some (.faulted none .emptyProgram 0) :=
    (reset_of_empty hz).2.2
  have hf : (Machine.new p input output).finished = true := by simp [Machine.finished, hr]
  rw [(drive_of_finished hf calls).result, hr]

end Machine

namespace Program

variable {p : Program} {lines : List (List Char)}

/-- A program that is loaded from lines is sound. Whatever the tapes are and however the machine is
driven, its run does not end at an unknown label, it ends for lack of instructions exactly if there are
none, and a negative index is met at indirect operands only. -/
theorem sound_of_ofLines (h : ofLines lines = .ok p) :
    p.Sound ∧ ∀ (input : InputTape) (output : OutputTape) (calls : List Call) (m : Machine),
      m = (Machine.new p input output).drive calls →
      (∀ index f n, m.result = some (.faulted index f n) → f.kind ≠ .unknownLabel ∧
        (f.kind = .invalidIndex → ∃ (k : Nat) (i : Instruction) (j : Int),
          index = some (k : Int) ∧ p.instructions[k]? = some i ∧ i.operand = some (.indirect j))) ∧
      ((∃ index f n, m.result = some (.faulted index f n) ∧ f.kind = .emptyProgram) ↔ p.size = 0) := by
  have hp := Sound.ofLines h
  refine ⟨hp, ?_⟩
  rintro input output calls m rfl
  have hm := (Machine.kept_admissible hp).drive calls (.new p input output)
  refine ⟨fun index f n hr => ?_, ?_, fun hz => ?_⟩
  · have ha := hm.faulted index f n hr
    exact ⟨ha.unknownLabel, ha.invalidIndex⟩
  · rintro ⟨index, f, n, hr, hk⟩
    exact (hm.faulted index f n hr).emptyProgram hk
  · exact ⟨none, .emptyProgram, 0, Machine.drive_of_empty hz input output calls, rfl⟩

/-- Counts down from a value of the tape and follows the count into the registers. -/
def descent : List (List Char) :=
  ["read 1".toList, "Next:".toList, "load 1".toList, "sub =1 ; one less".toList, "store 1".toList,
    "load *1".toList, "jump NEXT".toList]

theorem sound_of_ofLines_descent :
    ∃ p m, ofLines descent = .ok p ∧ p.Sound ∧ p.labels = [("next", 1)] ∧
      m = (Machine.new p { values := #[1] }).drive [.step, .execute 20 { limit := some 20 }, .step] ∧
      m.result = some (.faulted (some 4) (.invalidIndex (-1)) 9) ∧
      ∃ (k : Nat) (i : Instruction) (j : Int),
        some 4 = some (k : Int) ∧ p.instructions[k]? = some i ∧ i.operand = some (.indirect j) := by
  have h : ofLines descent = .ok (ofInstructions
      [⟨.read, some (.direct 1), none⟩, ⟨.load, some (.direct 1), some "next"⟩,
        ⟨.sub, some (.constant 1), none⟩, ⟨.store, some (.direct 1), none⟩,
        ⟨.load, some (.indirect 1), none⟩, ⟨.jump, some (.tag "next"), none⟩]) := by
    decide +kernel
  obtain ⟨hp, hruns⟩ := sound_of_ofLines h
  obtain ⟨hfault, -⟩ := hruns { values := #[1] } {} [.step, .execute 20 { limit := some 20 }, .step] _ rfl
  have hr := hfault (some 4) (.invalidIndex (-1)) 9 (by decide +kernel)
  exact ⟨_, _, h, hp, by decide +kernel, rfl, by decide +kernel, hr.2 rfl⟩

end Program
end RandomAccess

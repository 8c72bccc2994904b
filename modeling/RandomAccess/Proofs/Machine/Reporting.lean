import RandomAccess.Proofs.Machine.SoundRun

/-!
# Numbers without a numeral

Integers are unbounded, their numerals are not. A step that needs the numeral of too large a number fails
and leaves the run where it was. Every other step of a loaded program returns.
-/

namespace RandomAccess

open Abstract

/-! ## Open sinks -/

theorem Sink.closed_of_write {s s' : Sink} {l : String} (h : s.write l = .ok s') :
    s'.closed = s.closed := by
  unfold write at h
  split at h
  · cases h
  · split at h <;> cases h <;> rfl

theorem Sink.write_ne_closed {s : Sink} (h : s.closed = false) (l : String) :
    s.write l ≠ .error .closed := by
  simp only [write, h, Bool.false_eq_true, if_false]
  split <;> simp

namespace OutputTape

variable {t t' : OutputTape} {v : Int} {x : Option Failure}

/-- The sink, if there is one, is not closed. -/
def Open (t : OutputTape) : Prop := ∀ s, t.sink = some s → s.closed = false

theorem Writes.keeps_open (h : t.Writes v t' x) (ht : t.Open) : t'.Open := by
  cases h with
  | sent hs _ hw =>
      rintro s ⟨⟩
      rw [Sink.closed_of_write hw]
      exact ht _ hs
  | kept | refused | closed | overlong => exact ht

theorem write_of_overlong (hs : t.sink ≠ none) (hv : Numeral.writable v = false) :
    (t.write v).2 = some (.digitLimit .writing) := by
  obtain ⟨s, hs⟩ := Option.ne_none_iff_exists'.mp hs
  simp [write, hs, hv]

end OutputTape

namespace Machine

variable {m m' : Machine} {p : Program} {k j v : Int} {i : Instruction} {e : Effect}

theorem perform_open (h : m.output.Open) : (m.perform e).1.output.Open := by
  cases e with
  | output v => exact (m.output.writes_write v).keeps_open h
  | _ => exact h

theorem Outcome.keeps_open {x : Option Failure} (ho : m.Outcome m' x) (h : m.output.Open) :
    m'.output.Open := by
  cases ho with
  | idle | faulted | unreported => exact h
  | refused _ _ ht => exact ht.keeps_open h
  | unsent _ _ ht _ => exact ht.keeps_open h
  | completed _ _ _ _ =>
      rw [after_output]
      exact perform_open h
  | uncounted _ _ _ _ => exact perform_open h

theorem kept_open : Kept fun m => m.output.Open where
  step := fun m h => m.step_outcome.keeps_open h
  limit := fun _ _ h => h
  openTrace := fun _ _ h => h
  closeTrace := fun _ _ h => h

/-! ## Steps that need a numeral -/

/-- The next instruction is at index `k`, and goes through a register that holds the negative number
`j`. -/
def Astray (m : Machine) (k j : Int) : Prop :=
  ∃ i, ∃ n : Nat, m.Fetches k i ∧ i.opcode ≠ .halt ∧ Addressing.indirect ∈ i.opcode.modes ∧
    i.operand = some (.indirect n) ∧ m.registers.cell n = j ∧ j < 0

/-- The next instruction is at index `k`, and writes the value `v`. -/
def Writing (m : Machine) (k v : Int) : Prop :=
  ∃ i o, m.Fetches k i ∧ i.opcode = .write ∧ i.operand = some o ∧ Denotes m.registers.cell o v ∧
    ¬ Names m.registers.cell o 0

/-- The next instruction needs a numeral that there is not: in the message of its fault, or for the sink
of the output tape. -/
inductive Overlong (m : Machine) : Prop where
  | index {k j : Int} (h : m.Astray k j) (hj : Numeral.writable j = false) : Overlong m
  | value {k v : Int} (h : m.Writing k v) (hs : m.output.sink ≠ none)
      (hv : Numeral.writable v = false) : Overlong m

theorem Astray.step_eq (h : m.Astray k j) : m.step = m.fail (.ofFault (.invalidIndex j)) := by
  obtain ⟨⟨op, _, l⟩, n, hf, hop, hm, rfl, rfl, hj⟩ := h
  have hs : Strays m.registers.cell (.indirect n) (m.registers.cell n) := .register (.indirect n) hj
  have he := effect_of_strays (o := .indirect n) (k := k) (l := l) hop hm hs
  refine step_of_plan_error hf.running ?_
  rw [hf.plan_eq, he]
  rfl

theorem Writing.plan_eq (h : m.Writing k v) : ∃ i, m.Fetches k i ∧ m.plan = .ok (k, i, .output v) := by
  obtain ⟨⟨_, _, l⟩, o, hf, rfl, rfl, hv, hz⟩ := h
  refine ⟨_, hf, ?_⟩
  rw [hf.plan_eq, effect_of_output hv hz]
  rfl

theorem Overlong.step_eq (h : m.Overlong) : m.step.2 = some (.digitLimit .writing) := by
  cases h with
  | @index k j h hj =>
      have hx : Failure.ofFault (.invalidIndex j) = .digitLimit .writing :=
        if_neg (by simp [Fault.writable, hj])
      rw [h.step_eq, hx]
      rfl
  | value h hs hv =>
      obtain ⟨i, hf, hp⟩ := h.plan_eq
      rw [step_of_perform_some hf.running hp (OutputTape.write_of_overlong hs hv)]
      rfl

/-! ## Steps that return -/

/-- What holds of a machine that runs a loaded program with an open sink. -/
structure Orderly (m : Machine) : Prop where
  sound : m.program.Sound
  ready : m.program.Ready
  controlled : m.Controlled
  opened : m.output.Open

theorem Orderly.drive {lines : List (List Char)} (h : Program.ofLines lines = .ok p) (input : InputTape)
    {output : OutputTape} (ho : output.Open) (calls : List Call) :
    ((Machine.new p input output).drive calls).Orderly := by
  have hsound := Program.Sound.ofLines h
  have hp := ((kept_admissible hsound).drive calls (.new p input output)).program
  have hready : (Machine.new p input output).program.Ready := by simpa [Machine.new] using .ofLines h
  have hopen : (Machine.new p input output).output.Open := by simpa [Machine.new] using ho
  obtain ⟨hr, hc⟩ := kept_controlled.drive calls ⟨hready, .reset _⟩
  exact ⟨by rwa [hp], hr, hc, kept_open.drive calls hopen⟩

theorem Orderly.overlong_of_blocked (h : m.Orderly) (hf : m.finished = false) {f : Fault}
    (hb : m.Blocked f) (hw : f.writable = false) : m.Overlong := by
  cases hb with
  | lost hl => exact absurd hl (h.controlled.at?_ne_none hf)
  | meets hf hm =>
      cases hm with
      | invalidIndex ho hm hj =>
          obtain ⟨n, rfl, hn⟩ := h.sound.indirect hf.mem ho hj
          have hop := mt (h.sound.operand _ hf.mem).mpr (by simp [ho])
          exact .index ⟨_, n, hf, hop, hm, ho, hn, hj.neg⟩ hw
      | _ => cases hw

theorem Orderly.overlong_of_unsent (h : m.Orderly) (hf : m.Fetches k i) (hc : m.Causes k i (.output v))
    {t : OutputTape} {x : Failure} (ht : m.output.Writes v t (some x)) (hx : ∀ f, x ≠ .fault f) :
    m.Overlong := by
  cases ht with
  | refused _ _ _ => exact absurd rfl (hx _)
  | closed hs _ hw => exact absurd hw (Sink.write_ne_closed (h.opened _ hs) _)
  | overlong hs hv =>
      cases hc with
      | write hi ho hd hz => exact .value ⟨_, _, hf, hi, ho, hd, hz⟩ (by simp [hs]) hv

theorem Orderly.returns (h : m.Orderly) (hn : ¬ m.Overlong) {x : Option Failure} (ho : m.Outcome m' x) :
    x = none := by
  cases ho with
  | idle | faulted | refused | completed => rfl
  | unreported hf hb hw => exact absurd (h.overlong_of_blocked hf hb hw) hn
  | unsent hf hc ht hx => exact absurd (h.overlong_of_unsent hf hc ht hx) hn
  | uncounted hf _ _ hw =>
      rw [h.ready.writable _ hf.mem] at hw
      cases hw

/-- A value that has a numeral, or needs none, is written unless the sink refuses it. -/
theorem Orderly.step_of_writing (h : m.Orderly) (hw : m.Writing k v)
    (hv : m.output.sink = none ∨ Numeral.writable v = true) :
    m.step.2 = none ∧ m.step.1.output.values = m.output.values.push v ∧
      (m.step.1.steps = m.steps + 1 ∨
        ∃ reason, m.step.1.result = some (.faulted (some k) (.outputRefused reason) m.steps)) := by
  obtain ⟨i, hf, hp⟩ := hw.plan_eq
  have hi := h.ready.writable i hf.mem
  have ht := m.output.writes_write v
  rcases hx : m.output.write v with ⟨t, x⟩
  have hperform : m.perform (.output v) = ({ m with output := t }, x) := by simp only [perform, hx]
  rw [hx] at ht
  cases ht with
  | kept _ | sent _ _ _ =>
      rw [step_of_perform_none hf.running hp (by rw [hperform]), if_pos hi]
      simp [hperform, OutputTape.append]
  | refused _ _ _ =>
      rw [step_of_perform_some hf.running hp (by rw [hperform]), hperform]
      simp [fail, Machine.fault, hf.pointer]
  | closed hs _ hc => exact absurd hc (Sink.write_ne_closed (h.opened _ hs) _)
  | overlong hs hl => simp [hs, hl] at hv

/-- However a machine with a loaded program and an open sink was driven, its next step returns, unless the
instruction needs the numeral of a number that has none: then the step fails for that. In particular an
access through a negative number is a fault, and a value is written or refused. -/
theorem step_returns {lines : List (List Char)} (h : Program.ofLines lines = .ok p) (input : InputTape)
    {output : OutputTape} (ho : output.Open) (calls : List Call)
    (hm : m = (Machine.new p input output).drive calls) :
    (m.Overlong → m.step.2 = some (.digitLimit .writing)) ∧ (¬ m.Overlong → m.step.2 = none) ∧
      (∀ k j, m.Astray k j → Numeral.writable j = true → m.step = (m.fault (.invalidIndex j), none)) ∧
      ∀ k v, m.Writing k v → m.output.sink = none ∨ Numeral.writable v = true →
        m.step.2 = none ∧ m.step.1.output.values = m.output.values.push v ∧
          (m.step.1.steps = m.steps + 1 ∨
            ∃ reason, m.step.1.result = some (.faulted (some k) (.outputRefused reason) m.steps)) := by
  have horder : m.Orderly := hm ▸ .drive h input ho calls
  refine ⟨Overlong.step_eq, fun hn => horder.returns hn m.step_outcome, fun k j hs hj => ?_,
    fun k v => horder.step_of_writing⟩
  have hx : Failure.ofFault (.invalidIndex j) = .fault (.invalidIndex j) := if_pos hj
  rw [hs.step_eq, hx]
  rfl

/-- Writes the third power of a number and follows it into the registers. -/
def cubing : List (List Char) :=
  ["read 1".toList, "load 1".toList, "mul 1".toList, "mul 1".toList, "store 2".toList,
    "write 2".toList, "load *2".toList]

def cubingProgram : Program :=
  .ofInstructions [⟨.read, some (.direct 1), none⟩, ⟨.load, some (.direct 1), none⟩,
    ⟨.mul, some (.direct 1), none⟩, ⟨.mul, some (.direct 1), none⟩, ⟨.store, some (.direct 2), none⟩,
    ⟨.write, some (.direct 2), none⟩, ⟨.load, some (.indirect 2), none⟩]

theorem step_returns_cubing :
    Program.ofLines cubing = .ok cubingProgram ∧
      ∃ m, m = (Machine.new cubingProgram { values := #[-3] } { sink := some {} }).drive
          (List.replicate 6 .step) ∧
        m.output.sink = some { content := "-27\n" } ∧ m.step = (m.fault (.invalidIndex (-27)), none) := by
  have h : Program.ofLines cubing = .ok cubingProgram := by decide +kernel
  have ho : OutputTape.Open { sink := some {} } := by
    rintro s ⟨⟩
    rfl
  obtain ⟨-, -, hstray, -⟩ := step_returns h { values := #[-3] } ho (List.replicate 6 .step) rfl
  refine ⟨h, _, rfl, by decide +kernel, hstray 6 (-27) ?_ (by decide +kernel)⟩
  exact ⟨⟨.load, some (.indirect 2), none⟩, 2, ⟨by decide +kernel, by decide +kernel, by decide +kernel⟩,
    by simp, by simp [Opcode.modes], rfl, by decide +kernel, by decide +kernel⟩

/-- The steps that fail: a number whose third power has no numeral is neither sent nor a fault. -/
theorem cubing_step_fails :
    ∃ p, Program.ofLines cubing = .ok p ∧
      ((Machine.new p { values := #[-(pow10 1434 : Int)] }).drive (List.replicate 6 .step)).step.2 =
        some (.digitLimit .writing) ∧
      ((Machine.new p { values := #[-(pow10 1434 : Int)] } { sink := some {} }).drive
        (List.replicate 5 .step)).step.2 = some (.digitLimit .writing) :=
  ⟨cubingProgram, by decide +kernel, by decide +kernel, by decide +kernel⟩

end Machine
end RandomAccess

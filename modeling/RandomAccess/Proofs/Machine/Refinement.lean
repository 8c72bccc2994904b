import RandomAccess.Proofs.Machine.Outcome

/-!
# The machine refines the abstract machine

A machine represents a state of the abstract machine if its registers hold the memory, its pointer,
tapes and result agree. One step of the machine is then one transition of the abstract machine. The
step is computed from the transition: the abstract machine is never stuck, so there is a transition,
and since the machine has only one way to go there is only one.
-/

namespace RandomAccess

open Abstract

/-- The status of a run with a given result. -/
def Abstract.Status.of : Option Result → Status
  | none => .running
  | some (.halted _) => .halted
  | some (.faulted _ f _) => .faulted f.kind

namespace Machine

structure Represents (m : Machine) (a : State) : Prop where
  memory : ∀ i : Nat, m.registers.get i = .ok (a.memory i)
  pointer : m.ip = a.pointer.map Int.ofNat
  unread : m.input.unread = a.unread
  output : m.output.values.toList = a.output
  status : Status.of m.result = a.status

/-- Any number of steps, each of which returns. -/
abbrev Reaches : Machine → Machine → Prop :=
  Relation.ReflTransGen fun m m' => m.step = (m', none)

/-- What holds of a machine without a sink and the state that it represents, all along a run. -/
structure Simulates (p : Program) (m : Machine) (a : State) : Prop extends m.Represents a where
  program : m.program = p
  sink : m.output.sink = none

variable {p : Program} {m m' : Machine} {a b : State} {k : Nat} {i : Instruction}

theorem Represents.cell (h : m.Represents a) (j : Nat) : m.registers.cell j = a.memory j := by
  have hj := h.memory j
  rw [Registers.get, Registers.index, if_neg (by omega)] at hj
  exact Except.ok.inj hj

theorem Represents.result (h : m.Represents a) : m.result = none ↔ a.status = .running := by
  rw [← h.status]
  cases m.result with
  | none => simp [Status.of]
  | some r => cases r <;> simp [Status.of]

theorem Represents.unique (ha : m.Represents a) (hb : m.Represents b) : a = b := by
  obtain ⟨mem, ptr, un, out, st⟩ := a
  obtain ⟨mem', ptr', un', out', st'⟩ := b
  have h₁ : mem = mem' := funext fun j => Except.ok.inj ((ha.memory j).symm.trans (hb.memory j))
  have h₂ : ptr = ptr' :=
    Option.map_injective (fun _ _ => Int.ofNat.inj) (ha.pointer.symm.trans hb.pointer)
  have h₃ : un = un' := ha.unread.symm.trans hb.unread
  have h₄ : out = out' := ha.output.symm.trans hb.output
  have h₅ : st = st' := ha.status.symm.trans hb.status
  rw [h₁, h₂, h₃, h₄, h₅]

/-! ## Operands -/

theorem Represents.memory_eq (h : m.Represents a) : a.memory = m.registers.cell :=
  funext fun j => (h.cell j).symm

theorem register_of_names (h : m.Represents a) {o : Operand} {j : Int} (hn : Names a.memory o j)
    (op : Opcode) : o.register m.registers op = .ok j := by
  rw [h.memory_eq] at hn
  exact hn.register_eq op

theorem value_of_denotes (h : m.Represents a) {o : Operand} {v : Int} (hd : Denotes a.memory o v)
    (op : Opcode) : o.value m.registers op = .ok v := by
  rw [h.memory_eq] at hd
  exact hd.value_eq op

theorem effect_of_invalid (h : m.Represents a) {op : Opcode} {o : Operand} {l : Option String}
    (hi : Invalid a.memory o) (hop : op ≠ .halt) (hm : o.addressing ∈ op.modes) :
    ∃ j, m.effect k ⟨op, some o, l⟩ = .error (.ofFault (.invalidIndex j)) := by
  rw [h.memory_eq] at hi
  obtain ⟨j, hj⟩ := hi.strays
  exact ⟨j, effect_of_strays hop hm hj⟩

/-! ## One step -/

theorem Simulates.plan (h : Simulates p m a) (hf : a.Fetches p k i) :
    m.plan = (m.effect k i).map fun e => (Int.ofNat k, i, e) := by
  have hip : m.ip = some (Int.ofNat k) := by rw [h.pointer, hf.pointer]; rfl
  have hat : m.program.fetch (some (Int.ofNat k)) = .ok i := by
    have : m.program.at? (some (Int.ofNat k)) = some i := by
      have hk : ¬ Int.ofNat k < 0 := Int.not_lt.mpr (Int.natCast_nonneg k)
      rw [h.program, Program.at?, Option.bind_eq_bind, Option.bind_some, if_neg hk]
      exact hf.instruction
    simp only [Program.fetch, this]
  simp only [Machine.plan, hip, hat, bind, Except.bind]
  rw [show m.effect (Int.ofNat k) i = m.effect k i from rfl]
  cases m.effect k i <;> rfl

theorem Simulates.unfinished (h : Simulates p m a) (hf : a.Fetches p k i) : m.finished = false := by
  rw [finished, h.result.mpr hf.running]; rfl

theorem Simulates.step_error (h : Simulates p m a) (hf : a.Fetches p k i) {e : Failure}
    (he : m.effect k i = .error e) : m.step = m.fail e := by
  simp only [step, h.unfinished hf, h.plan hf, he, Except.map]
  rfl

/-- A fault of the effect is the fault of the transition. -/
theorem Simulates.fault (h : Simulates p m a) (hf : a.Fetches p k i) {f : Fault}
    (he : m.effect k i = .error (.fault f)) :
    ∃ m', m.step = (m', none) ∧ Simulates p m' (a.fault f.kind) := by
  exact ⟨m.fault f, h.step_error hf he, ⟨h.memory, h.pointer, h.unread, h.output, rfl⟩, h.program, h.sink⟩

/-- An effect that is carried out moves the pointer on to `t`. -/
theorem Simulates.complete (h : Simulates p m a) (hf : a.Fetches p k i) (hw : i.writable = true)
    {e : Effect} (he : m.effect k i = .ok e) {m₁ : Machine} (hp : m.perform e = (m₁, none))
    (h₁ : m₁.Represents b) (hprog : m₁.program = p) (hsink : m₁.output.sink = none)
    {t : Option Nat} (ht : m₁.successor k e = t.map Int.ofNat) :
    ∃ m', m.step = (m', none) ∧ Simulates p m' (b.goto t) := by
  have hs : m.step = m₁.complete k i e := by
    simp only [step, h.unfinished hf, h.plan hf, he, Except.map, hp]
    rfl
  refine ⟨_, hs.trans (by rw [Machine.complete, if_pos hw]), ?_⟩
  cases t with
  | none =>
      rw [proceed_of_successor_none (by cases e <;> exact ht)]
      exact ⟨⟨h₁.memory, rfl, h₁.unread, h₁.output, rfl⟩, hprog, hsink⟩
  | some t =>
      rw [proceed_of_successor_some (j := Int.ofNat t) (by cases e <;> exact ht)]
      exact ⟨⟨h₁.memory, rfl, h₁.unread, h₁.output, h₁.status⟩, hprog, hsink⟩

theorem next_eq_map (p : Program) (k : Nat) :
    p.next k = (if k + 1 < p.size then some (k + 1) else none : Option Nat).map Int.ofNat := by
  unfold Program.next
  by_cases hk : k + 1 < p.size
  · rw [if_pos hk, if_pos (by exact_mod_cast hk)]; rfl
  · rw [if_neg hk, if_neg (by exact_mod_cast hk)]; rfl

theorem Simulates.advance (h : Simulates p m a) (hf : a.Fetches p k i) (hw : i.writable = true)
    {e : Effect} (he : m.effect k i = .ok e) (hg : ∀ t, e ≠ .goto t) {m₁ : Machine}
    (hp : m.perform e = (m₁, none)) (h₁ : m₁.Represents b) (hprog : m₁.program = p)
    (hsink : m₁.output.sink = none) :
    ∃ m', m.step = (m', none) ∧ Simulates p m' (b.advance p k) := by
  refine h.complete hf hw he hp h₁ hprog hsink ?_
  cases e with
  | goto t => exact absurd rfl (hg t)
  | _ => exact (congrArg (Program.next · k) hprog).trans (next_eq_map p k)

theorem Simulates.goto (h : Simulates p m a) (hf : a.Fetches p k i) (hw : i.writable = true)
    {t : Option Nat} (he : m.effect k i = .ok (.goto (t.map Int.ofNat))) :
    ∃ m', m.step = (m', none) ∧ Simulates p m' (a.goto t) :=
  -- the goto moves the pointer before the step is complete
  h.complete (b := { a with pointer := t }) hf hw he rfl
    ⟨h.memory, rfl, h.unread, h.output, h.status⟩ h.program h.sink rfl

/-! ## One transition -/

theorem Represents.memory_put (h : m.Represents a) (j : Nat) (v : Int) (n : Nat) :
    (m.registers.put j v).get n = .ok ((a.assign j v).memory n) := by
  show _ = Except.ok (Function.update a.memory j v n)
  rw [Registers.get_natCast, Registers.cell_put, Function.update_apply, h.cell]
  simp only [eq_comm]

theorem peek_of_unread_nil {t : InputTape} (h : t.unread = []) :
    t.peek = .error (.inputExhausted t.values.size) := by
  have hn : t.values[t.position]? = none := by
    rw [← Array.getElem?_toList, ← List.head?_drop]
    exact congrArg List.head? h
  simp only [InputTape.peek, hn]

theorem peek_of_unread_cons {t : InputTape} {v : Int} {r : List Int} (h : t.unread = v :: r) :
    t.peek = .ok v ∧ t.advance.unread = r := by
  constructor
  · have hv : t.values[t.position]? = some v := by
      rw [← Array.getElem?_toList, ← List.head?_drop]
      exact congrArg List.head? h
    simp only [InputTape.peek, hv]
  · have ht := congrArg List.tail h
    rwa [InputTape.unread, List.tail_drop] at ht

theorem Simulates.arithmetic (h : Simulates p m a) (arith : Registers.Arithmetic) {op : Opcode}
    {o : Operand} {l : Option String} (hf : a.Fetches p k ⟨op, some o, l⟩)
    (hw : Instruction.writable ⟨op, some o, l⟩ = true) (ha : op.arithmetic? = some arith) {v : Int}
    (hd : Denotes a.memory o v) (hv : ¬ (arith = .div ∧ v = 0)) :
    ∃ m', m.step = (m', none) ∧
      Simulates p m' ((a.assign 0 (arith.apply (a.memory 0) v)).advance p k) := by
  have he : m.effect k ⟨op, some o, l⟩ = .ok (.assign 0 (arith.apply (a.memory 0) v)) := by
    rw [effect_of_arithmetic arith ha (value_of_denotes h.toRepresents hd op), Machine.arithmetic,
      Registers.Arithmetic.check, if_neg hv, Registers.acc, h.cell]
    rfl
  exact h.advance hf hw he (by simp) rfl
    ⟨h.memory_put 0 _, h.pointer, h.unread, h.output, h.status⟩ h.program h.sink

theorem Simulates.jump (hp : p.WellFormed) (h : Simulates p m a) (hf : a.Fetches p k i)
    (hw : i.writable = true) {l : String} (he : m.effect k i = m.target l)
    (hx : Executes p a k .jump (.tag l) b) :
    ∃ m', m.step = (m', none) ∧ Simulates p m' b := by
  cases hx with
  | invalidIndex hi => cases hi with | register hn _ => cases hn
  | @jump _ t ht =>
      refine h.goto (t := some t) hf hw ?_
      rw [he, target, h.program, hp.target_eq_ok ht]
      rfl
  | jumpUnknown hu =>
      refine h.fault (f := .unknownLabel l) hf ?_
      rw [he, target, h.program, hp.target_eq_error hu]

/-- The step that a transition stands for. A negative index that has no numeral is reported and
does not end the run. -/
theorem Simulates.executes (hp : p.WellFormed) (h : Simulates p m a) {op : Opcode} {o : Operand}
    {l : Option String} (hf : a.Fetches p k ⟨op, some o, l⟩)
    (hw : Instruction.writable ⟨op, some o, l⟩ = true) (hop : op ≠ .halt)
    (hm : o.addressing ∈ op.modes) (hx : Executes p a k op o b) :
    (∃ m', m.step = (m', none) ∧ Simulates p m' b) ∨
      b = a.fault .invalidIndex ∧ ∃ e, m.step = (m, some (.digitLimit e)) := by
  have hrep := h.toRepresents
  have hacc : m.registers.acc = a.memory 0 := h.cell 0
  cases hx with
  | invalidIndex hi =>
      obtain ⟨j, he⟩ := effect_of_invalid (k := k) (l := l) hrep hi hop hm
      by_cases hj : Fault.writable (.invalidIndex j) = true
      · rw [Failure.ofFault, if_pos hj] at he
        exact Or.inl (h.fault hf he)
      · rw [Failure.ofFault, if_neg hj] at he
        exact Or.inr ⟨rfl, .writing, h.step_error hf he⟩
  | load hd => exact Or.inl (h.arithmetic .assign hf hw rfl hd (by simp))
  | add hd => exact Or.inl (h.arithmetic .add hf hw rfl hd (by simp))
  | sub hd => exact Or.inl (h.arithmetic .sub hf hw rfl hd (by simp))
  | mul hd => exact Or.inl (h.arithmetic .mul hf hw rfl hd (by simp))
  | div hd hv =>
      rw [← Registers.quotient_eq_tdiv]
      exact Or.inl (h.arithmetic .div hf hw rfl hd (by simpa using hv))
  | divZero hd =>
      refine Or.inl (h.fault (f := .divisionByZero) hf ?_)
      rw [effect_of_arithmetic .div rfl (value_of_denotes hrep hd .div)]
      rfl
  | @store _ j hn =>
      have he : m.effect k ⟨.store, some o, l⟩ = .ok (.assign j (a.memory 0)) := by
        simp only [effect, register_of_names hrep hn, bind, Except.bind, Registers.index_natCast, hacc]
        rfl
      exact Or.inl (h.advance hf hw he (by simp) rfl
        ⟨h.memory_put j _, h.pointer, h.unread, h.output, h.status⟩ h.program h.sink)
  | readAccumulator hn =>
      refine Or.inl (h.fault (f := .accumulatorInput) hf ?_)
      simp only [effect, register_of_names hrep hn, bind, Except.bind, if_pos]
      rfl
  | @read _ j v r hn hj hr =>
      obtain ⟨hv, hr'⟩ := peek_of_unread_cons (h.unread.trans hr)
      have hz : (j : Int) ≠ 0 := by omega
      have he : m.effect k ⟨.read, some o, l⟩ = .ok (.input j v) := by
        simp only [effect, register_of_names hrep hn, bind, Except.bind, if_neg hz, Registers.index_natCast, hv]
        rfl
      exact Or.inl (h.advance hf hw he (by simp) rfl
        ⟨h.memory_put j v, h.pointer, hr', h.output, h.status⟩ h.program h.sink)
  | @readExhausted _ j hn hj hr =>
      have hz : (j : Int) ≠ 0 := by omega
      refine Or.inl (h.fault (f := .inputExhausted m.input.values.size) hf ?_)
      simp only [effect, register_of_names hrep hn, bind, Except.bind, if_neg hz, Registers.index_natCast,
        peek_of_unread_nil (h.unread.trans hr)]
      rfl
  | writeAccumulator hn =>
      refine Or.inl (h.fault (f := .accumulatorOutput) hf ?_)
      rw [effect_of_write (register_of_names hrep hn .write), if_pos rfl]
  | @write _ v hd h₀ =>
      have he : m.effect k ⟨.write, some o, l⟩ = .ok (.output v) := by
        cases hd with
        | constant v => rfl
        | @register _ j hn =>
            have hz : (j : Int) ≠ 0 := fun hj => h₀ (hj ▸ hn)
            rw [effect_of_write (register_of_names hrep hn .write), if_neg hz, h.memory]
            rfl
      have hpf : m.perform (.output v) = ({ m with output := (m.output.write v).1 }, none) := by
        simp only [perform, OutputTape.write, h.sink]
      exact Or.inl (h.advance hf hw he (by simp) hpf
        ⟨h.memory, h.pointer, h.unread, by simp [OutputTape.write, h.sink, h.output], h.status⟩ h.program
        (by simp [OutputTape.write, h.sink]))
  | jump ht => exact Or.inl (h.jump hp hf hw rfl (.jump ht))
  | jumpUnknown hu => exact Or.inl (h.jump hp hf hw rfl (.jumpUnknown hu))
  | jzero hz hx => exact Or.inl (h.jump hp hf hw (by rw [effect_of_jzero, hacc, if_pos hz]) hx)
  | jzeroPast hz =>
      refine Or.inl (h.goto hf hw ?_)
      rw [effect_of_jzero, hacc, if_neg hz, h.program, next_eq_map]
  | jgtz hz hx => exact Or.inl (h.jump hp hf hw (by rw [effect_of_jgtz, hacc, if_pos hz]) hx)
  | jgtzPast hz =>
      refine Or.inl (h.goto hf hw ?_)
      rw [effect_of_jgtz, hacc, if_neg (by omega), h.program, next_eq_map]

/-- One transition is one step of the machine. -/
theorem Simulates.transition (hp : p.WellFormed) (hw : ∀ i ∈ p.instructions, i.writable = true)
    (h : Simulates p m a) (hs : Step p a b) :
    (∃ m', m.step = (m', none) ∧ Simulates p m' b) ∨
      b = a.fault .invalidIndex ∧ ∃ e, m.step = (m, some (.digitLimit e)) := by
  cases hs with
  | @halt k i hf hi =>
      have he : m.effect k i = .ok (.goto none) := by simp only [effect, hi]
      exact Or.inl (h.goto (t := none) hf (hw i (Array.mem_of_getElem? hf.instruction)) he)
  | @illegal k i o hf ho hm =>
      obtain ⟨op, operand, l⟩ := i
      cases ho
      exact Or.inl (h.fault (f := .illegalAddressing op o.addressing) hf (effect_of_illegal hm))
  | @execute k i o _ hf hi ho hm hx =>
      obtain ⟨op, operand, l⟩ := i
      cases ho
      exact h.executes hp hf (hw _ (Array.mem_of_getElem? hf.instruction)) hi hm hx

/-! ## Runs -/

theorem Simulates.start {input : InputTape} {output : OutputTape} (ho : output.sink = none) :
    Simulates p (Machine.new p input output) (.start p input.unread output.values.toList) := by
  by_cases hz : p.size = 0
  · have hf : p.first = .error .emptyProgram := by
      rw [Program.first, if_pos (by simpa [Program.size] using hz)]
    simp only [Machine.new, reset, hf]
    refine ⟨⟨fun i => Registers.get_natCast _ i, ?_, rfl, rfl, ?_⟩, rfl, ho⟩
    · simp only [State.start, if_pos hz]; rfl
    · simp only [State.start, if_pos hz]; rfl
  · have hf : p.first = .ok 0 := by
      rw [Program.first, if_neg (by simpa [Program.size] using hz)]
    simp only [Machine.new, reset, hf]
    refine ⟨⟨fun i => Registers.get_natCast _ i, ?_, rfl, rfl, ?_⟩, rfl, ho⟩
    · simp only [State.start, if_neg hz]; rfl
    · simp only [State.start, if_neg hz]; rfl

theorem Simulates.fetches (h : Simulates p m a) (hl : a.Live p) (hf : m.finished = false) :
    ∃ k i, a.Fetches p k i := by
  refine hl (h.result.mp ?_)
  simpa [finished] using hf

/-- A step that returns is a transition, unless the run is over. -/
theorem Simulates.next (hp : p.WellFormed) (hw : ∀ i ∈ p.instructions, i.writable = true)
    (h : Simulates p m a) (hl : a.Live p) (hs : m.step = (m', none)) :
    ∃ b, Run p a b ∧ Simulates p m' b := by
  cases hf : m.finished with
  | true =>
      rw [step_of_finished hf] at hs
      cases hs
      exact ⟨a, .refl, h⟩
  | false =>
      obtain ⟨k, i, hi⟩ := h.fetches hl hf
      obtain ⟨b, hb⟩ := exists_step hp hi
      rcases h.transition hp hw hb with ⟨m'', hs', h'⟩ | ⟨-, e, hs'⟩
      · rw [hs] at hs'
        cases hs'
        exact ⟨b, .single hb, h'⟩
      · rw [hs] at hs'; cases hs'

theorem Simulates.reaches (hp : p.WellFormed) (hw : ∀ i ∈ p.instructions, i.writable = true)
    (h : Simulates p m a) (hl : a.Live p) (hr : m.Reaches m') : ∃ b, Run p a b ∧ Simulates p m' b := by
  induction hr with
  | refl => exact ⟨a, .refl, h⟩
  | tail _ hs ih =>
      obtain ⟨b, hab, hb⟩ := ih
      obtain ⟨c, hbc, hc⟩ := hb.next hp hw (live_of_run hl hab) hs
      exact ⟨c, hab.trans hbc, hc⟩

/-- Every machine that a new machine reaches represents a state that the abstract machine reaches.
There the next step, if it returns, is the one transition that the abstract machine has; it returns
unless it is to report a negative index that has no numeral. -/
theorem step_refines (hp : p.Loaded) (hw : ∀ i ∈ p.instructions, i.writable = true)
    {input : InputTape} {output : OutputTape} (ho : output.sink = none)
    (hr : (Machine.new p input output).Reaches m) :
    ∃ a, m.Represents a ∧ Run p (.start p input.unread output.values.toList) a ∧
      (m.finished = true → m.step = (m, none) ∧ ∀ b, ¬ Step p a b) ∧
      (m.finished = false → (∃! b, Step p a b) ∧ ∀ b, Step p a b →
        (∀ m', m.step = (m', none) → m'.Represents b) ∧
        ((∃ m', m.step = (m', none)) ∨
          b = a.fault .invalidIndex ∧ ∃ e, m.step = (m, some (.digitLimit e)))) := by
  have hwf := hp.wellFormed
  have hstart := State.Live.start p input.unread output.values.toList
  obtain ⟨a, hrun, h⟩ := (Simulates.start ho).reaches hwf hw hstart hr
  refine ⟨a, h.toRepresents, hrun, fun hf => ⟨step_of_finished hf, fun b hb => ?_⟩, fun hf => ⟨?_, ?_⟩⟩
  · have hn := h.result.mpr hb.running
    simp [finished, hn] at hf
  · obtain ⟨k, i, hi⟩ := h.fetches (live_of_run hstart hrun) hf
    obtain ⟨b, hb⟩ := exists_step hwf hi
    refine ⟨b, hb, fun c hc => ?_⟩
    -- the machine has one step, which both transitions stand for
    rcases h.transition hwf hw hb with ⟨m₁, h₁, hs₁⟩ | ⟨rfl, e, h₁⟩ <;>
      rcases h.transition hwf hw hc with ⟨m₂, h₂, hs₂⟩ | ⟨rfl, e', h₂⟩
    · rw [h₁] at h₂
      cases h₂
      exact hs₂.unique hs₁.toRepresents
    · rw [h₁] at h₂; cases h₂
    · rw [h₁] at h₂; cases h₂
    · rfl
  · intro b hb
    rcases h.transition hwf hw hb with ⟨m₁, h₁, hs₁⟩ | ⟨rfl, e, h₁⟩
    · refine ⟨fun m' hm' => ?_, Or.inl ⟨m₁, h₁⟩⟩
      rw [h₁] at hm'
      cases hm'
      exact hs₁.toRepresents
    · refine ⟨fun m' hm' => ?_, Or.inr ⟨rfl, e, h₁⟩⟩
      rw [h₁] at hm'; cases hm'

/-- Loads a negative number and stores it at the index that it is: the second step is a fault. -/
def negativeStore : Program where
  instructions := #[{ opcode := .load, operand := some (.constant (-7)) },
    { opcode := .store, operand := some (.indirect 0) }]

theorem step_refines_negativeStore :
    negativeStore.Loaded ∧ (Machine.new negativeStore).Reaches (Machine.new negativeStore).step.1 ∧
      ∃ a, (Machine.new negativeStore).step.1.Represents a ∧ ∃! b, Step negativeStore a b := by
  have hl : negativeStore.Loaded := Or.inr ⟨negativeStore.instructions.toList.zipIdx.map
    fun e => (e.2, e.1), by decide +kernel⟩
  have hr : (Machine.new negativeStore).Reaches (Machine.new negativeStore).step.1 :=
    .single (by decide +kernel)
  obtain ⟨a, ha, -, -, hs⟩ := step_refines hl (by decide +kernel) rfl hr
  exact ⟨hl, hr, a, ha, (hs (by decide +kernel)).1⟩

end Machine
end RandomAccess

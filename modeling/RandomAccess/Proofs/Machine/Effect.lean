import RandomAccess.Machine.Step
import RandomAccess.Proofs.Machine.Abstract

/-!
# What an instruction does and what it meets

An instruction has an effect or meets a fault. Which effect and which fault this may be is said by two
relations, in the words of the abstract machine: what an operand names and denotes in the registers.
-/

namespace RandomAccess

open Abstract

variable {r : Registers} {o : Operand} {op : Opcode} {j v : Int} {l : Option String} {k : Int}

/-! ## Operands -/

/-- The negative index that is met on the way to the register that an operand names. -/
inductive Abstract.Strays (memory : Nat → Int) : Operand → Int → Prop where
  | lookup {i : Int} (h : i < 0) : Strays memory (.indirect i) i
  | register {o : Operand} {i : Int} (h : Names memory o i) (hi : i < 0) : Strays memory o i

theorem Abstract.Strays.neg {memory : Nat → Int} (h : Strays memory o j) : j < 0 := by
  cases h with
  | lookup hj => exact hj
  | register _ hj => exact hj

theorem Abstract.Invalid.strays {memory : Nat → Int} (h : Invalid memory o) :
    ∃ j, Strays memory o j := by
  cases h with
  | lookup hi => exact ⟨_, .lookup hi⟩
  | register hn hi => exact ⟨_, .register hn hi⟩

theorem Registers.index_natCast (n : Nat) : Registers.index n = .ok n := by
  rw [Registers.index, if_neg (by omega)]; rfl

theorem Registers.index_neg (hj : j < 0) : Registers.index j = .error (.ofFault (.invalidIndex j)) := by
  rw [Registers.index, if_pos hj]

theorem Registers.get_natCast (r : Registers) (n : Nat) : r.get n = .ok (r.cell n) := by
  rw [Registers.get, Registers.index_natCast]; rfl

theorem Registers.get_neg (r : Registers) (hj : j < 0) :
    r.get j = .error (.ofFault (.invalidIndex j)) := by
  rw [Registers.get, Registers.index_neg hj]; rfl

theorem Abstract.Names.register_eq (h : Names r.cell o j) (op : Opcode) : o.register r op = .ok j := by
  cases h with
  | direct j => rfl
  | indirect n => exact r.get_natCast n

theorem Operand.value_of_register (h : o.register r op = .ok j) : o.value r op = r.get j := by
  cases o with
  | constant _ => cases h
  | tag _ => cases h
  | direct _ => simp only [Operand.value, h]; rfl
  | indirect _ => simp only [Operand.value, h]; rfl

theorem Abstract.Denotes.value_eq (h : Denotes r.cell o v) (op : Opcode) : o.value r op = .ok v := by
  cases h with
  | constant v => rfl
  | register hn => rw [Operand.value_of_register (hn.register_eq op), r.get_natCast]

/-- A negative index is met either in the look at memory or as the result of it. -/
theorem Abstract.Strays.register_eq (h : Strays r.cell o j) (op : Opcode) :
    o.register r op = .ok j ∨ o.register r op = .error (.ofFault (.invalidIndex j)) := by
  cases h with
  | lookup hj => exact Or.inr (r.get_neg hj)
  | register hn hj => exact Or.inl (hn.register_eq op)

theorem Abstract.Strays.value_eq (h : Strays r.cell o j) (op : Opcode) :
    o.value r op = .error (.ofFault (.invalidIndex j)) := by
  rcases h.register_eq op with hr | hr
  · rw [Operand.value_of_register hr, r.get_neg h.neg]
  · cases o with
    | constant _ => cases h with | register hn _ => cases hn
    | _ => simp only [Operand.value, hr]; rfl

/-! ## Effects -/

/-- The operation on the accumulator that an instruction carries out. -/
def Opcode.arithmetic? : Opcode → Option Registers.Arithmetic
  | load => some .assign
  | add => some .add
  | sub => some .sub
  | mul => some .mul
  | div => some .div
  | _ => none

namespace Machine

variable {m : Machine}

theorem effect_of_illegal (hm : o.addressing ∉ op.modes) :
    m.effect k ⟨op, some o, l⟩ = .error (.fault (.illegalAddressing op o.addressing)) := by
  cases op <;> cases o <;> first | rfl | exact absurd (by simp [Opcode.modes, Operand.addressing]) hm

theorem effect_of_arithmetic (arith : Registers.Arithmetic) (ha : op.arithmetic? = some arith)
    (hv : o.value m.registers op = .ok v) :
    m.effect k ⟨op, some o, l⟩ = m.arithmetic arith v := by
  cases op <;> cases ha <;> simp only [effect, hv] <;> rfl

theorem effect_of_write (hr : o.register m.registers .write = .ok j) :
    m.effect k ⟨.write, some o, l⟩ =
      if j = 0 then .error (.fault .accumulatorOutput) else (m.registers.get j).map .output := by
  have he : m.effect k ⟨.write, some o, l⟩ = (do
      let i ← o.register m.registers .write
      if i = 0 then throw (.fault .accumulatorOutput)
      return .output (← m.registers.get i)) := by
    cases o <;> first | rfl | cases hr
  rw [he, hr]
  by_cases hj : j = 0
  · subst hj; rfl
  · simp only [bind, Except.bind, if_neg hj]
    cases m.registers.get j <;> rfl

theorem effect_of_output (hv : Denotes m.registers.cell o v) (hz : ¬ Names m.registers.cell o 0) :
    m.effect k ⟨.write, some o, l⟩ = .ok (.output v) := by
  cases hv with
  | constant v => rfl
  | @register _ n hn =>
      have hne : (n : Int) ≠ 0 := fun h => hz (h ▸ hn)
      rw [effect_of_write (hn.register_eq .write), if_neg hne, Registers.get_natCast]
      rfl

theorem effect_of_jzero {t : String} :
    m.effect k ⟨.jzero, some (.tag t), l⟩ =
      if m.registers.acc = 0 then m.target t else .ok (.goto (m.program.next k)) := rfl

theorem effect_of_jgtz {t : String} :
    m.effect k ⟨.jgtz, some (.tag t), l⟩ =
      if m.registers.acc > 0 then m.target t else .ok (.goto (m.program.next k)) := rfl

theorem effect_of_strays (hop : op ≠ .halt) (hm : o.addressing ∈ op.modes)
    (hs : Strays m.registers.cell o j) :
    m.effect k ⟨op, some o, l⟩ = .error (.ofFault (.invalidIndex j)) := by
  have hr := hs.register_eq op
  have hv := hs.value_eq op
  have hx := Registers.index_neg hs.neg
  have hz : j ≠ 0 := by have := hs.neg; omega
  have ht : ∀ t, o ≠ .tag t := by
    rintro t rfl
    cases hs with | register hn _ => cases hn
  cases op with
  | halt => exact absurd rfl hop
  | load | add | sub | mul | div => simp only [effect, hv]; rfl
  | store =>
      rcases hr with hr | hr
      · simp only [effect, hr, bind, Except.bind, hx]
      · simp only [effect, hr]; rfl
  | read =>
      rcases hr with hr | hr
      · simp only [effect, hr, bind, Except.bind, hx, if_neg hz]
      · simp only [effect, hr]; rfl
  | write =>
      cases o with
      | constant v => cases hs with | register hn _ => cases hn
      | tag t => exact absurd rfl (ht t)
      | direct n | indirect n =>
          rcases hr with hr | hr
          · rw [effect_of_write hr, if_neg hz, Registers.get_neg _ hs.neg]; rfl
          · simp only [effect, hr]; rfl
  | jump | jzero | jgtz =>
      cases o with
      | tag t => exact absurd rfl (ht t)
      | _ => simp [Opcode.modes, Operand.addressing] at hm

theorem effect_of_store {n : Nat} (hn : Names m.registers.cell o n) :
    m.effect k ⟨.store, some o, l⟩ = .ok (.assign n m.registers.acc) := by
  simp only [effect, hn.register_eq, bind, Except.bind, Registers.index_natCast]
  rfl

theorem effect_of_read {n : Nat} (hn : Names m.registers.cell o n) (hz : 0 < n) :
    m.effect k ⟨.read, some o, l⟩ =
      match m.input.peek with
      | .ok v => .ok (.input n v)
      | .error f => .error (.fault f) := by
  have hz : (n : Int) ≠ 0 := by omega
  simp only [effect, hn.register_eq, bind, Except.bind, if_neg hz, Registers.index_natCast]
  cases m.input.peek <;> rfl

/-- What the instruction at index `k` does. -/
inductive Causes (m : Machine) (k : Int) (i : Instruction) : Effect → Prop where
  | arithmetic {arith : Registers.Arithmetic} {o : Operand} {v : Int}
      (hi : i.opcode.arithmetic? = some arith) (ho : i.operand = some o)
      (hv : Denotes m.registers.cell o v) (hz : ¬ (arith = .div ∧ v = 0)) :
      Causes m k i (.assign 0 (arith.apply m.registers.acc v))
  | store {o : Operand} {n : Nat} (hi : i.opcode = .store) (ho : i.operand = some o)
      (hn : Names m.registers.cell o n) : Causes m k i (.assign n m.registers.acc)
  | read {o : Operand} {n : Nat} {v : Int} (hi : i.opcode = .read) (ho : i.operand = some o)
      (hn : Names m.registers.cell o n) (hz : 0 < n) (hv : m.input.peek = .ok v) :
      Causes m k i (.input n v)
  | write {o : Operand} {v : Int} (hi : i.opcode = .write) (ho : i.operand = some o)
      (hv : Denotes m.registers.cell o v) (hz : ¬ Names m.registers.cell o 0) :
      Causes m k i (.output v)
  | jump {l : String} {t : Int}
      (hi : i.opcode = .jump ∨ i.opcode = .jzero ∧ m.registers.acc = 0 ∨
        i.opcode = .jgtz ∧ 0 < m.registers.acc)
      (ho : i.operand = some (.tag l)) (ht : m.program.target l = .ok t) :
      Causes m k i (.goto (some t))
  | past (hi : i.opcode = .jzero ∧ m.registers.acc ≠ 0 ∨ i.opcode = .jgtz ∧ m.registers.acc ≤ 0) :
      Causes m k i (.goto (m.program.next k))
  | halt (hi : i.opcode = .halt ∨ i.operand = none) : Causes m k i (.goto none)

/-- The fault that an instruction meets. -/
inductive Meets (m : Machine) (i : Instruction) : Fault → Prop where
  | illegalAddressing {o : Operand} (ho : i.operand = some o) (hm : o.addressing ∉ i.opcode.modes) :
      Meets m i (.illegalAddressing i.opcode o.addressing)
  | invalidIndex {o : Operand} {j : Int} (ho : i.operand = some o)
      (hm : o.addressing ∈ i.opcode.modes) (hj : Strays m.registers.cell o j) :
      Meets m i (.invalidIndex j)
  | divisionByZero {o : Operand} (hi : i.opcode = .div) (ho : i.operand = some o)
      (hv : Denotes m.registers.cell o 0) : Meets m i .divisionByZero
  | accumulatorInput {o : Operand} (hi : i.opcode = .read) (ho : i.operand = some o)
      (hn : Names m.registers.cell o 0) : Meets m i .accumulatorInput
  | inputExhausted (hi : i.opcode = .read)
      (hp : m.input.peek = .error (.inputExhausted m.input.values.size)) :
      Meets m i (.inputExhausted m.input.values.size)
  | accumulatorOutput {o : Operand} (hi : i.opcode = .write) (ho : i.operand = some o)
      (hn : Names m.registers.cell o 0) : Meets m i .accumulatorOutput
  | unknownLabel {l : String} (ho : i.operand = some (.tag l))
      (ht : m.program.target l = .error (.unknownLabel l)) : Meets m i (.unknownLabel l)

/-- The instruction has an effect that it causes, or fails for a fault that it meets. -/
def Accounted (m : Machine) (k : Int) (i : Instruction) : Prop :=
  (∃ e, m.effect k i = .ok e ∧ m.Causes k i e) ∨ ∃ f, m.effect k i = .error (.ofFault f) ∧ m.Meets i f

theorem Causes.accounted {i : Instruction} {e : Effect} (h : m.Causes k i e)
    (he : m.effect k i = .ok e) : m.Accounted k i := Or.inl ⟨e, he, h⟩

theorem Meets.accounted {i : Instruction} {f : Fault} (h : m.Meets i f)
    (he : m.effect k i = .error (.ofFault f)) : m.Accounted k i := Or.inr ⟨f, he, h⟩

theorem accounted_arithmetic {arith : Registers.Arithmetic} (ha : op.arithmetic? = some arith)
    (hv : Denotes m.registers.cell o v) : m.Accounted k ⟨op, some o, l⟩ := by
  have he := effect_of_arithmetic (k := k) (l := l) arith ha (hv.value_eq op)
  rw [arithmetic, Registers.Arithmetic.check] at he
  by_cases hz : arith = .div ∧ v = 0
  · rw [if_pos hz] at he
    obtain ⟨rfl, rfl⟩ := hz
    have hop : op = .div := by cases op <;> cases ha; rfl
    exact (Meets.divisionByZero hop rfl hv).accounted he
  · rw [if_neg hz] at he
    exact (Causes.arithmetic ha rfl hv hz).accounted he

theorem accounted_read {n : Nat} (hn : Names m.registers.cell o n) :
    m.Accounted k ⟨.read, some o, l⟩ := by
  rcases Nat.eq_zero_or_pos n with rfl | hz
  · refine (Meets.accumulatorInput rfl rfl hn).accounted ?_
    simp only [effect, hn.register_eq, bind, Except.bind]
    rfl
  · have he := effect_of_read (k := k) (l := l) hn hz
    cases hp : m.input.peek with
    | ok v =>
        rw [hp] at he
        exact (Causes.read rfl rfl hn hz hp).accounted he
    | error f =>
        have hf : f = .inputExhausted m.input.values.size := by
          unfold InputTape.peek at hp
          split at hp <;> cases hp
          rfl
        rw [hp, hf] at he
        exact (Meets.inputExhausted rfl (hf ▸ hp)).accounted he

theorem accounted_write (hv : Denotes m.registers.cell o v) : m.Accounted k ⟨.write, some o, l⟩ := by
  by_cases hz : Names m.registers.cell o 0
  · refine (Meets.accumulatorOutput rfl rfl hz).accounted ?_
    rw [effect_of_write (hz.register_eq .write), if_pos rfl]
    rfl
  · exact (Causes.write rfl rfl hv hz).accounted (effect_of_output hv hz)

theorem accounted_target {t : String} (he : m.effect k ⟨op, some (.tag t), l⟩ = m.target t)
    (hop : op = .jump ∨ op = .jzero ∧ m.registers.acc = 0 ∨ op = .jgtz ∧ 0 < m.registers.acc) :
    m.Accounted k ⟨op, some (.tag t), l⟩ := by
  cases ht : m.program.target t with
  | ok n =>
      simp only [target, ht] at he
      exact (Causes.jump hop rfl ht).accounted he
  | error f =>
      have hf : f = .unknownLabel t := by
        unfold Program.target at ht
        split at ht <;> cases ht
        rfl
      subst hf
      simp only [target, ht] at he
      exact (Meets.unknownLabel rfl ht).accounted he

theorem accounted_jump {t : String} (hm : op.modes = [.tag]) : m.Accounted k ⟨op, some (.tag t), l⟩ := by
  cases op with
  | jump => exact accounted_target rfl (Or.inl rfl)
  | jzero =>
      have he := effect_of_jzero (m := m) (k := k) (l := l) (t := t)
      by_cases hz : m.registers.acc = 0
      · rw [if_pos hz] at he
        exact accounted_target he (Or.inr (Or.inl ⟨rfl, hz⟩))
      · rw [if_neg hz] at he
        exact (Causes.past (Or.inl ⟨rfl, hz⟩)).accounted he
  | jgtz =>
      have he := effect_of_jgtz (m := m) (k := k) (l := l) (t := t)
      by_cases hz : m.registers.acc > 0
      · rw [if_pos hz] at he
        exact accounted_target he (Or.inr (Or.inr ⟨rfl, hz⟩))
      · rw [if_neg hz] at he
        exact (Causes.past (Or.inr ⟨rfl, Int.not_lt.mp hz⟩)).accounted he
  | _ => simp [Opcode.modes] at hm

/-- Every instruction is accounted for, in every machine. -/
theorem effect_accounted (m : Machine) (k : Int) (i : Instruction) : m.Accounted k i := by
  obtain ⟨op, o, l⟩ := i
  cases o with
  | none =>
      refine (Causes.halt (Or.inr rfl)).accounted ?_
      cases op <;> rfl
  | some o =>
      by_cases hop : op = .halt
      · subst hop
        exact (Causes.halt (Or.inl rfl)).accounted rfl
      by_cases hm : o.addressing ∈ op.modes
      case neg => exact (Meets.illegalAddressing rfl hm).accounted (effect_of_illegal hm)
      by_cases hs : Invalid m.registers.cell o
      · obtain ⟨j, hj⟩ := hs.strays
        exact (Meets.invalidIndex rfl hm hj).accounted (effect_of_strays hop hm hj)
      -- the operand can be resolved: what is left depends on the operation
      have hvalue (ho : o.addressing ∈ [Addressing.constant, .direct, .indirect]) :
          ∃ v, Denotes m.registers.cell o v :=
        (denotes_or_invalid m.registers.cell ho).resolve_left hs
      have hregister (ho : o.addressing ∈ [Addressing.direct, .indirect]) :
          ∃ n : Nat, Names m.registers.cell o n :=
        (names_or_invalid m.registers.cell ho).resolve_left hs
      have htag (ho : o.addressing ∈ [Addressing.tag]) : ∃ t, o = .tag t := by
        cases o with
        | tag t => exact ⟨t, rfl⟩
        | _ => simp [Operand.addressing] at ho
      cases op with
      | halt => exact absurd rfl hop
      | load | add | sub | mul | div =>
          obtain ⟨v, hv⟩ := hvalue hm
          exact accounted_arithmetic rfl hv
      | store =>
          obtain ⟨n, hn⟩ := hregister hm
          exact (Causes.store rfl rfl hn).accounted (effect_of_store hn)
      | read =>
          obtain ⟨n, hn⟩ := hregister hm
          exact accounted_read hn
      | write =>
          obtain ⟨v, hv⟩ := hvalue hm
          exact accounted_write hv
      | jump | jzero | jgtz =>
          obtain ⟨t, rfl⟩ := htag hm
          exact accounted_jump rfl

end Machine
end RandomAccess

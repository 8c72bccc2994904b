import Mathlib.Logic.Function.Basic
import Mathlib.Logic.Relation
import RandomAccess.Proofs.Program.WellFormed

/-!
# The abstract machine

A memory with one integer for every natural index, a pointer into the program, the values that are
still to be read and the values written. What an instruction does is given by rules. An operand whose
mode its operation does not take comes before everything else; then the operand is resolved, where a
negative index is met; what is left depends on the operation.

Main statements: the pointer stays in the program as long as the run goes on, and there is a transition as
long as the pointer is in the program.
-/

namespace RandomAccess

/-! ## Faults and operand modes -/

/-- The kinds of faults. Refusing the accumulator is one kind for both tapes. -/
inductive Fault.Kind where
  | emptyProgram | outOfProgram | unknownLabel | illegalAddressing | accumulatorAccess
  | invalidIndex | divisionByZero | inputExhausted | outputRefused | limitReached
deriving DecidableEq

def Fault.kind : Fault → Fault.Kind
  | .emptyProgram => .emptyProgram
  | .outOfProgram _ => .outOfProgram
  | .unknownLabel _ => .unknownLabel
  | .illegalAddressing _ _ => .illegalAddressing
  | .accumulatorInput | .accumulatorOutput => .accumulatorAccess
  | .invalidIndex _ => .invalidIndex
  | .divisionByZero => .divisionByZero
  | .inputExhausted _ => .inputExhausted
  | .outputRefused _ => .outputRefused
  | .limitReached => .limitReached

/-- The operand modes that an operation takes; `halt` does not look at its operand. -/
def Opcode.modes : Opcode → List Addressing
  | load | add | sub | mul | div | write => [.constant, .direct, .indirect]
  | store | read => [.direct, .indirect]
  | jump | jzero | jgtz => [.tag]
  | halt => [.constant, .direct, .indirect, .tag]

namespace Abstract

inductive Status where
  | running
  | halted
  | faulted (kind : Fault.Kind)
deriving DecidableEq

structure State where
  memory : Nat → Int
  pointer : Option Nat
  unread : List Int
  output : List Int
  status : Status

namespace State

/-- Memory is zero at first, and the run starts at the first instruction. -/
def start (p : Program) (unread output : List Int) : State where
  memory := fun _ => 0
  pointer := if p.size = 0 then none else some 0
  unread := unread
  output := output
  status := if p.size = 0 then .faulted .emptyProgram else .running

/-- Ends the run with a fault and changes nothing else. -/
def fault (a : State) (k : Fault.Kind) : State := { a with status := .faulted k }

/-- Moves the pointer; without a target the run is over. -/
def goto (a : State) (target : Option Nat) : State :=
  { a with pointer := target, status := if target.isNone then .halted else a.status }

/-- Moves on from the instruction at index `k`. -/
def advance (a : State) (p : Program) (k : Nat) : State :=
  a.goto (if k + 1 < p.size then some (k + 1) else none)

def assign (a : State) (i : Nat) (v : Int) : State :=
  { a with memory := Function.update a.memory i v }

/-- The run goes on with the instruction `i` at index `k`. -/
structure Fetches (p : Program) (a : State) (k : Nat) (i : Instruction) : Prop where
  running : a.status = .running
  pointer : a.pointer = some k
  instruction : p.instructions[k]? = some i

/-- As long as the run goes on, the pointer is in the program. -/
def Live (p : Program) (a : State) : Prop := a.status = .running → ∃ k i, a.Fetches p k i

end State

/-! ## Operands -/

/-- The index of the register that an operand names. An indirect operand takes one look at memory. -/
inductive Names (memory : Nat → Int) : Operand → Int → Prop where
  | direct (i : Int) : Names memory (.direct i) i
  | indirect (i : Nat) : Names memory (.indirect i) (memory i)

/-- The value that an operand stands for. -/
inductive Denotes (memory : Nat → Int) : Operand → Int → Prop where
  | constant (v : Int) : Denotes memory (.constant v) v
  | register {o : Operand} {i : Nat} (h : Names memory o i) : Denotes memory o (memory i)

/-- A negative index is met on the way to the register that an operand names. -/
inductive Invalid (memory : Nat → Int) : Operand → Prop where
  | lookup {i : Int} (h : i < 0) : Invalid memory (.indirect i)
  | register {o : Operand} {i : Int} (h : Names memory o i) (hi : i < 0) : Invalid memory o

/-! ## Transitions -/

/-- What the instruction at index `k` does once the mode of its operand is accepted. -/
inductive Executes (p : Program) (a : State) (k : Nat) : Opcode → Operand → State → Prop where
  | invalidIndex {op : Opcode} {o : Operand} (h : Invalid a.memory o) :
      Executes p a k op o (a.fault .invalidIndex)
  | load {o : Operand} {v : Int} (h : Denotes a.memory o v) :
      Executes p a k .load o ((a.assign 0 v).advance p k)
  | add {o : Operand} {v : Int} (h : Denotes a.memory o v) :
      Executes p a k .add o ((a.assign 0 (a.memory 0 + v)).advance p k)
  | sub {o : Operand} {v : Int} (h : Denotes a.memory o v) :
      Executes p a k .sub o ((a.assign 0 (a.memory 0 - v)).advance p k)
  | mul {o : Operand} {v : Int} (h : Denotes a.memory o v) :
      Executes p a k .mul o ((a.assign 0 (a.memory 0 * v)).advance p k)
  | div {o : Operand} {v : Int} (h : Denotes a.memory o v) (hv : v ≠ 0) :
      Executes p a k .div o ((a.assign 0 ((a.memory 0).tdiv v)).advance p k)
  | divZero {o : Operand} (h : Denotes a.memory o 0) :
      Executes p a k .div o (a.fault .divisionByZero)
  | store {o : Operand} {i : Nat} (h : Names a.memory o i) :
      Executes p a k .store o ((a.assign i (a.memory 0)).advance p k)
  | readAccumulator {o : Operand} (h : Names a.memory o 0) :
      Executes p a k .read o (a.fault .accumulatorAccess)
  | read {o : Operand} {i : Nat} {v : Int} {r : List Int} (h : Names a.memory o i) (hi : 0 < i)
      (hr : a.unread = v :: r) :
      Executes p a k .read o ({ a.assign i v with unread := r }.advance p k)
  | readExhausted {o : Operand} {i : Nat} (h : Names a.memory o i) (hi : 0 < i)
      (hr : a.unread = []) :
      Executes p a k .read o (a.fault .inputExhausted)
  | writeAccumulator {o : Operand} (h : Names a.memory o 0) :
      Executes p a k .write o (a.fault .accumulatorAccess)
  | write {o : Operand} {v : Int} (h : Denotes a.memory o v) (h₀ : ¬ Names a.memory o 0) :
      Executes p a k .write o ({ a with output := a.output ++ [v] }.advance p k)
  | jump {l : String} {t : Nat} (h : p.Marks l t) :
      Executes p a k .jump (.tag l) (a.goto (some t))
  | jumpUnknown {l : String} (h : ∀ t, ¬ p.Marks l t) :
      Executes p a k .jump (.tag l) (a.fault .unknownLabel)
  | jzero {l : String} {b : State} (hz : a.memory 0 = 0) (h : Executes p a k .jump (.tag l) b) :
      Executes p a k .jzero (.tag l) b
  | jzeroPast {l : String} (hz : a.memory 0 ≠ 0) :
      Executes p a k .jzero (.tag l) (a.advance p k)
  | jgtz {l : String} {b : State} (hz : 0 < a.memory 0) (h : Executes p a k .jump (.tag l) b) :
      Executes p a k .jgtz (.tag l) b
  | jgtzPast {l : String} (hz : a.memory 0 ≤ 0) :
      Executes p a k .jgtz (.tag l) (a.advance p k)

/-- One transition of the machine on a program. -/
inductive Step (p : Program) (a : State) : State → Prop where
  | halt {k : Nat} {i : Instruction} (hf : a.Fetches p k i) (hi : i.opcode = .halt) :
      Step p a (a.goto none)
  | illegal {k : Nat} {i : Instruction} {o : Operand} (hf : a.Fetches p k i)
      (ho : i.operand = some o) (hm : o.addressing ∉ i.opcode.modes) :
      Step p a (a.fault .illegalAddressing)
  | execute {k : Nat} {i : Instruction} {o : Operand} {b : State} (hf : a.Fetches p k i)
      (hi : i.opcode ≠ .halt) (ho : i.operand = some o) (hm : o.addressing ∈ i.opcode.modes)
      (hx : Executes p a k i.opcode o b) : Step p a b

/-- Any number of transitions. -/
abbrev Run (p : Program) : State → State → Prop := Relation.ReflTransGen (Step p)

theorem Step.running {p : Program} {a b : State} (h : Step p a b) : a.status = .running := by
  cases h with
  | halt hf _ => exact hf.running
  | illegal hf _ _ => exact hf.running
  | execute hf _ _ _ _ => exact hf.running

/-! ## The pointer stays in the program -/

variable {p : Program} {a b : State} {k : Nat} {i : Instruction}

theorem State.Live.fault (a : State) (c : Fault.Kind) : (a.fault c).Live p := nofun

theorem State.Live.goto_none (a : State) : (a.goto none).Live p := nofun

theorem State.Live.goto_some {t : Nat} (ht : t < p.size) (a : State) :
    (a.goto (some t)).Live p := by
  intro hr
  obtain ⟨j, hj⟩ : ∃ j, p.instructions[t]? = some j := ⟨_, Array.getElem?_eq_getElem ht⟩
  exact ⟨t, j, hr, rfl, hj⟩

theorem State.Live.advance (a : State) (k : Nat) : (a.advance p k).Live p := by
  unfold State.advance
  split
  · rename_i h; exact .goto_some h a
  · exact .goto_none a

theorem Executes.live {op : Opcode} {o : Operand} (h : Executes p a k op o b) : b.Live p := by
  induction h with
  | jump ht => exact .goto_some (Program.Marks.lt_size ht) a
  | jzero _ _ ih => exact ih
  | jgtz _ _ ih => exact ih
  | invalidIndex | divZero | readAccumulator | readExhausted | writeAccumulator | jumpUnknown =>
      exact .fault a _
  | _ => exact .advance _ k

theorem Step.live (h : Step p a b) : b.Live p := by
  cases h with
  | halt _ _ => exact .goto_none a
  | illegal _ _ _ => exact .fault a _
  | execute _ _ _ _ hx => exact hx.live

theorem State.Live.start (p : Program) (unread output : List Int) : (start p unread output).Live p := by
  by_cases hz : p.size = 0
  · intro hr
    simp [State.start, hz] at hr
  · have hl := State.Live.goto_some (Nat.pos_of_ne_zero hz) (.start p unread output)
    simpa [State.goto, State.start, hz] using hl

/-- The pointer stays in the program on the whole run. -/
theorem live_of_run (hl : a.Live p) (h : Run p a b) : b.Live p := by
  cases h with
  | refl => exact hl
  | tail _ hs => exact hs.live

/-! ## There is always a transition -/

/-- A register operand either meets a negative index or names a register. -/
theorem names_or_invalid (memory : Nat → Int) {o : Operand}
    (ho : o.addressing ∈ [Addressing.direct, .indirect]) :
    Invalid memory o ∨ ∃ i : Nat, Names memory o i := by
  have of_names {j : Int} (hn : Names memory o j) : Invalid memory o ∨ ∃ i : Nat, Names memory o i := by
    rcases Int.lt_or_le j 0 with hj | hj
    · exact Or.inl (.register hn hj)
    · obtain ⟨i, rfl⟩ := Int.eq_ofNat_of_zero_le hj
      exact Or.inr ⟨i, hn⟩
  cases o with
  | constant _ => simp [Operand.addressing] at ho
  | tag _ => simp [Operand.addressing] at ho
  | direct j => exact of_names (.direct j)
  | indirect j =>
      rcases Int.lt_or_le j 0 with hj | hj
      · exact Or.inl (.lookup hj)
      · obtain ⟨i, rfl⟩ := Int.eq_ofNat_of_zero_le hj
        exact of_names (.indirect i)

theorem denotes_or_invalid (memory : Nat → Int) {o : Operand}
    (ho : o.addressing ∈ [Addressing.constant, .direct, .indirect]) :
    Invalid memory o ∨ ∃ v, Denotes memory o v := by
  by_cases hc : o.addressing ∈ [Addressing.direct, .indirect]
  · rcases names_or_invalid memory hc with h | ⟨i, h⟩
    · exact Or.inl h
    · exact Or.inr ⟨_, .register h⟩
  · cases o with
    | constant v => exact Or.inr ⟨v, .constant v⟩
    | _ => simp [Operand.addressing] at ho hc

theorem exists_executes_jump (p : Program) (a : State) (k : Nat) (l : String) :
    ∃ b, Executes p a k .jump (.tag l) b := by
  by_cases h : ∃ t, p.Marks l t
  · obtain ⟨t, ht⟩ := h
    exact ⟨_, .jump ht⟩
  · exact ⟨_, .jumpUnknown fun t ht => h ⟨t, ht⟩⟩

theorem exists_executes (p : Program) (a : State) (k : Nat) {op : Opcode} {o : Operand}
    (hop : op ≠ .halt) (ho : o.addressing ∈ op.modes) : ∃ b, Executes p a k op o b := by
  -- every operation on a value faults on a negative index and has a rule for each value
  have on_value (ho : o.addressing ∈ [Addressing.constant, .direct, .indirect])
      (hv : ∀ v, Denotes a.memory o v → ∃ b, Executes p a k op o b) :
      ∃ b, Executes p a k op o b := by
    rcases denotes_or_invalid a.memory ho with h | ⟨v, h⟩
    · exact ⟨_, .invalidIndex h⟩
    · exact hv v h
  have on_register (ho : o.addressing ∈ [Addressing.direct, .indirect])
      (hn : ∀ i : Nat, Names a.memory o i → ∃ b, Executes p a k op o b) :
      ∃ b, Executes p a k op o b := by
    rcases names_or_invalid a.memory ho with h | ⟨i, h⟩
    · exact ⟨_, .invalidIndex h⟩
    · exact hn i h
  have on_tag (ho : o.addressing ∈ [Addressing.tag]) : ∃ l, o = .tag l := by
    cases o with
    | tag l => exact ⟨l, rfl⟩
    | _ => simp [Operand.addressing] at ho
  cases op with
  | halt => exact absurd rfl hop
  | load => exact on_value ho fun v h => ⟨_, .load h⟩
  | add => exact on_value ho fun v h => ⟨_, .add h⟩
  | sub => exact on_value ho fun v h => ⟨_, .sub h⟩
  | mul => exact on_value ho fun v h => ⟨_, .mul h⟩
  | div =>
      refine on_value ho fun v h => ?_
      by_cases hv : v = 0
      · subst hv; exact ⟨_, .divZero h⟩
      · exact ⟨_, .div h hv⟩
  | store => exact on_register ho fun i h => ⟨_, .store h⟩
  | read =>
      refine on_register ho fun i h => ?_
      rcases Nat.eq_zero_or_pos i with rfl | hi
      · exact ⟨_, .readAccumulator h⟩
      · cases hu : a.unread with
        | nil => exact ⟨_, .readExhausted h hi hu⟩
        | cons v r => exact ⟨_, .read h hi hu⟩
  | write =>
      refine on_value ho fun v h => ?_
      by_cases h₀ : Names a.memory o 0
      · exact ⟨_, .writeAccumulator h₀⟩
      · exact ⟨_, .write h h₀⟩
  | jump =>
      obtain ⟨l, rfl⟩ := on_tag ho
      exact exists_executes_jump p a k l
  | jzero =>
      obtain ⟨l, rfl⟩ := on_tag ho
      by_cases hz : a.memory 0 = 0
      · obtain ⟨b, hb⟩ := exists_executes_jump p a k l
        exact ⟨b, .jzero hz hb⟩
      · exact ⟨_, .jzeroPast hz⟩
  | jgtz =>
      obtain ⟨l, rfl⟩ := on_tag ho
      rcases Int.lt_or_le 0 (a.memory 0) with hz | hz
      · obtain ⟨b, hb⟩ := exists_executes_jump p a k l
        exact ⟨b, .jgtz hz hb⟩
      · exact ⟨_, .jgtzPast hz⟩

/-- The machine is never stuck: an instruction that is fetched has a transition. -/
theorem exists_step (hp : p.WellFormed) (hf : a.Fetches p k i) : ∃ b, Step p a b := by
  by_cases hi : i.opcode = .halt
  · exact ⟨_, .halt hf hi⟩
  · have hm : i ∈ p.instructions.toList := by
      rw [Array.mem_toList_iff]
      exact Array.mem_of_getElem? hf.instruction
    obtain ⟨o, ho⟩ := Option.ne_none_iff_exists'.mp (hp.operand i hm hi)
    by_cases hl : o.addressing ∈ i.opcode.modes
    · obtain ⟨b, hb⟩ := exists_executes p a k hi hl
      exact ⟨b, .execute hf hi ho hl hb⟩
    · exact ⟨_, .illegal hf ho hl⟩

end Abstract
end RandomAccess

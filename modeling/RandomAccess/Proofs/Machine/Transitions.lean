import RandomAccess.Proofs.Machine.Abstract

/-!
# Transitions counted one by one

What a piece of a program does is shown backwards: every instruction has a rule that puts it in front of
a run whose end is known already. The rules take the operand as a value or as an index and leave no side
condition but the place of the instruction in the program.
-/

namespace RandomAccess

/-! ## Instructions and their places -/

namespace Program

/-- The instruction at index `k` is the operation `op` on the operand `o`. -/
def Has (p : Program) (k : Nat) (op : Opcode) (o : Operand) : Prop :=
  (p.instructions[k]?).map (fun i => (i.opcode, i.operand)) = some (op, some o)

instance (p : Program) (k : Nat) (op : Opcode) (o : Operand) : Decidable (p.Has k op o) :=
  inferInstanceAs (Decidable (_ = _))

/-- The instruction at index `k` is the operation `op` on the operand `o`, and it is not the last one. -/
def Passes (p : Program) (k : Nat) (op : Opcode) (o : Operand) : Prop := p.Has k op o ∧ k + 1 < p.size

instance (p : Program) (k : Nat) (op : Opcode) (o : Operand) : Decidable (p.Passes k op o) :=
  inferInstanceAs (Decidable (_ ∧ _))

end Program

namespace Abstract

/-- The run goes on with the instruction at index `k`. -/
def State.before (k : Nat) (memory : Nat → Int) (unread output : List Int) : State :=
  ⟨memory, some k, unread, output, .running⟩

/-- The program has come to its end. -/
def State.over (memory : Nat → Int) (unread output : List Int) : State :=
  ⟨memory, none, unread, output, .halted⟩

/-- After `n` transitions the machine is in a state with the property. -/
inductive Leads (p : Program) (P : State → Prop) : Nat → State → Prop where
  | done {a : State} (h : P a) : Leads p P 0 a
  | next {n : Nat} {a b : State} (h : Step p a b) (hb : Leads p P n b) : Leads p P (n + 1) a

variable {p : Program} {P Q : State → Prop} {a b : State} {j k n t : Nat} {memory : Nat → Int}
  {unread output : List Int} {op : Opcode} {o : Operand} {l : String} {v : Int}

/-- A run goes on from the states that another one leads to. -/
theorem Leads.bind (h : Leads p P j a) (hs : ∀ b, P b → Leads p Q n b) : Leads p Q (n + j) a := by
  induction h with
  | done ha => exact hs _ ha
  | next hab _ ih => exact .next hab ih

/-- Once the run is over there are no more transitions. -/
theorem Leads.of_not_running (h : Leads p P n a) (ha : a.status ≠ .running) : P a := by
  cases h with
  | done h => exact h
  | next hab _ => exact absurd hab.running ha

/-! ## Operands -/

theorem Names.indirect_eq (j : Nat) {i : Nat} (h : memory j = i) : Names memory (.indirect j) i :=
  h ▸ .indirect j

theorem Denotes.direct (i : Nat) : Denotes memory (.direct i) (memory i) := .register (.direct i)

theorem Names.modes {i : Int} (h : Names memory o i) : o.addressing ∈ [Addressing.direct, .indirect] := by
  cases h with
  | direct i => exact .head _
  | indirect i => exact .tail _ (.head _)

theorem Denotes.modes (h : Denotes memory o v) :
    o.addressing ∈ [Addressing.constant, .direct, .indirect] := by
  cases h with
  | constant v => exact .head _
  | register hn => exact .tail _ hn.modes

theorem Names.unique {i i' : Int} (h : Names memory o i) (h' : Names memory o i') : i = i' := by
  generalize hq : o = q at h'
  cases h with
  | direct i =>
      cases h' with
      | direct j => exact Operand.direct.inj hq
      | indirect j => cases hq
  | indirect i =>
      cases h' with
      | direct j => cases hq
      | indirect j => rw [Int.ofNat.inj (Operand.indirect.inj hq)]

/-! ## One rule for each instruction -/

theorem step_of_executes (hi : p.Has k op o) (hop : op ≠ .halt) (hm : o.addressing ∈ op.modes)
    (hx : Executes p (.before k memory unread output) k op o b) :
    Step p (.before k memory unread output) b := by
  obtain ⟨i, hk, hio⟩ := Option.map_eq_some_iff.mp hi
  obtain ⟨rfl, ho⟩ := Prod.mk.inj hio
  exact .execute ⟨rfl, rfl, hk⟩ hop ho hm hx

namespace Leads

/-- An instruction that moves on to the next one. -/
theorem onward {memory' : Nat → Int} {unread' output' : List Int} (hi : p.Passes k op o)
    (hop : op ≠ .halt) (hm : o.addressing ∈ op.modes)
    (hx : Executes p (.before k memory unread output) k op o
      ((State.before k memory' unread' output').advance p k))
    (hs : Leads p P n (.before (k + 1) memory' unread' output')) :
    Leads p P (n + 1) (.before k memory unread output) := by
  rw [State.advance, if_pos hi.2] at hx
  exact .next (step_of_executes hi.1 hop hm hx) hs

theorem load (hi : p.Passes k .load o) (hv : Denotes memory o v)
    (hs : Leads p P n (.before (k + 1) (Function.update memory 0 v) unread output)) :
    Leads p P (n + 1) (.before k memory unread output) :=
  onward hi (by decide) hv.modes (.load hv) hs

theorem add (hi : p.Passes k .add o) (hv : Denotes memory o v)
    (hs : Leads p P n (.before (k + 1) (Function.update memory 0 (memory 0 + v)) unread output)) :
    Leads p P (n + 1) (.before k memory unread output) :=
  onward hi (by decide) hv.modes (.add hv) hs

theorem sub (hi : p.Passes k .sub o) (hv : Denotes memory o v)
    (hs : Leads p P n (.before (k + 1) (Function.update memory 0 (memory 0 - v)) unread output)) :
    Leads p P (n + 1) (.before k memory unread output) :=
  onward hi (by decide) hv.modes (.sub hv) hs

theorem mul (hi : p.Passes k .mul o) (hv : Denotes memory o v)
    (hs : Leads p P n (.before (k + 1) (Function.update memory 0 (memory 0 * v)) unread output)) :
    Leads p P (n + 1) (.before k memory unread output) :=
  onward hi (by decide) hv.modes (.mul hv) hs

theorem store (hi : p.Passes k .store o) {i : Nat} (hn : Names memory o i)
    (hs : Leads p P n (.before (k + 1) (Function.update memory i (memory 0)) unread output)) :
    Leads p P (n + 1) (.before k memory unread output) :=
  onward hi (by decide) hn.modes (.store hn) hs

theorem read (hi : p.Passes k .read o) {i : Nat} (hn : Names memory o i) (hpos : 0 < i)
    (hs : Leads p P n (.before (k + 1) (Function.update memory i v) unread output)) :
    Leads p P (n + 1) (.before k memory (v :: unread) output) :=
  onward hi (by decide) hn.modes (.read hn hpos rfl) hs

/-- The tape takes what a register holds, unless the register is the accumulator. -/
theorem write (hi : p.Passes k .write o) {i : Nat} (hn : Names memory o i) (hpos : 0 < i)
    (hv : memory i = v) (hs : Leads p P n (.before (k + 1) memory unread (output ++ [v]))) :
    Leads p P (n + 1) (.before k memory unread output) := by
  subst hv
  have h₀ : ¬ Names memory o 0 := fun h => by have := hn.unique h; omega
  exact onward hi (by decide) (Denotes.register hn).modes (.write (.register hn) h₀) hs

theorem jump (hi : p.Has k .jump (.tag l)) (ht : p.Marks l t)
    (hs : Leads p P n (.before t memory unread output)) :
    Leads p P (n + 1) (.before k memory unread output) :=
  .next (step_of_executes hi (by decide) (.head _) (.jump ht)) hs

theorem jzero (hi : p.Has k .jzero (.tag l)) (ht : p.Marks l t) (hz : memory 0 = 0)
    (hs : Leads p P n (.before t memory unread output)) :
    Leads p P (n + 1) (.before k memory unread output) :=
  .next (step_of_executes hi (by decide) (.head _) (.jzero hz (.jump ht))) hs

theorem jzeroPast (hi : p.Passes k .jzero (.tag l)) (hz : memory 0 ≠ 0)
    (hs : Leads p P n (.before (k + 1) memory unread output)) :
    Leads p P (n + 1) (.before k memory unread output) :=
  onward hi (by decide) (.head _) (.jzeroPast hz) hs

theorem jgtz (hi : p.Has k .jgtz (.tag l)) (ht : p.Marks l t) (hz : 0 < memory 0)
    (hs : Leads p P n (.before t memory unread output)) :
    Leads p P (n + 1) (.before k memory unread output) :=
  .next (step_of_executes hi (by decide) (.head _) (.jgtz hz (.jump ht))) hs

theorem jgtzPast (hi : p.Passes k .jgtz (.tag l)) (hz : memory 0 ≤ 0)
    (hs : Leads p P n (.before (k + 1) memory unread output)) :
    Leads p P (n + 1) (.before k memory unread output) :=
  onward hi (by decide) (.head _) (.jgtzPast hz) hs

theorem halt {i : Instruction} (hi : p.instructions[k]? = some i) (ho : i.opcode = .halt)
    (h : P (.over memory unread output)) : Leads p P 1 (.before k memory unread output) :=
  .next (.halt ⟨rfl, rfl, hi⟩ ho) (.done h)

theorem readExhausted (hi : p.Has k .read o) {i : Nat} (hn : Names memory o i) (hpos : 0 < i)
    (h : P ((State.before k memory [] output).fault .inputExhausted)) :
    Leads p P 1 (.before k memory [] output) :=
  .next (step_of_executes hi (by decide) hn.modes (.readExhausted hn hpos rfl)) (.done h)

end Leads
end Abstract
end RandomAccess

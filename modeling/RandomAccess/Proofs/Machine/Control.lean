import RandomAccess.Proofs.Machine.Call
import RandomAccess.Proofs.Program.Soundness

/-!
# Where the pointer stands

Whatever is done to a machine, its pointer is in the program as long as the run goes on, and the result
of a run that is over tells where and after how many steps it ended.
-/

namespace RandomAccess

/-! ## Indices in a program -/

namespace Program

variable {p : Program} {k j : Int}

theorem at?_eq_some {i : Instruction} (h : p.at? (some k) = some i) :
    ∃ n : Nat, k = n ∧ p.instructions[n]? = some i := by
  simp only [at?, Option.bind_eq_bind, Option.bind_some] at h
  split at h
  · cases h
  · exact ⟨k.toNat, by omega, h⟩

theorem at?_natCast (p : Program) (n : Nat) : p.at? (some (n : Int)) = p.instructions[n]? := by
  rw [at?, Option.bind_eq_bind, Option.bind_some, if_neg (by omega)]
  rfl

theorem first_eq (p : Program) : p.first = if p.size = 0 then .error .emptyProgram else .ok 0 := by
  simp [first, size]

theorem next_eq_some (h : p.next k = some j) : j = k + 1 ∧ k + 1 < p.size := by
  unfold next at h
  split at h
  · rename_i hk
    cases h
    exact ⟨rfl, hk⟩
  · cases h

theorem WellFormed.target_lt (hp : p.WellFormed) {l : String} (h : p.target l = .ok j) :
    ∃ n : Nat, j = n ∧ n < p.size := by
  unfold target at h
  split at h
  · rename_i n hn
    cases h
    exact ⟨n, rfl, Marks.lt_size (hp.lookup_eq_some_iff.mp hn)⟩
  · cases h

end Program

namespace Machine

variable {m m' : Machine} {k : Int} {i : Instruction} {e : Effect}

theorem Fetches.mem (h : m.Fetches k i) : i ∈ m.program.instructions := by
  obtain ⟨n, -, hi⟩ := Program.at?_eq_some h.instruction
  exact Array.mem_of_getElem? hi

/-- The pointer moves to an instruction of the program, if it does not stop. -/
theorem Causes.successor_lt (hc : m.Causes k i e) (hp : m.program.WellFormed) (hf : m.Fetches k i)
    {j : Int} (hj : m.successor k e = some j) : ∃ n : Nat, j = n ∧ n < m.program.size := by
  obtain ⟨n, rfl, hi⟩ := Program.at?_eq_some hf.instruction
  have hnext (h : m.program.next n = some j) : ∃ n : Nat, j = n ∧ n < m.program.size := by
    obtain ⟨rfl, hlt⟩ := Program.next_eq_some h
    exact ⟨n + 1, rfl, by omega⟩
  cases hc with
  | arithmetic => exact hnext hj
  | store => exact hnext hj
  | read => exact hnext hj
  | write => exact hnext hj
  | past => exact hnext hj
  | halt => cases hj
  | jump hi ho ht =>
      cases hj
      exact hp.target_lt ht

/-! ## The invariant -/

structure Controlled (m : Machine) : Prop where
  running : m.finished = false → ∃ k : Nat, m.ip = some (k : Int) ∧ k < m.program.size
  halted : ∀ n, m.result = some (.halted n) → m.ip = none ∧ n = m.steps
  faulted : ∀ index f n, m.result = some (.faulted index f n) →
    m.ip = index ∧ n = m.steps ∧ (index = none ↔ m.program.size = 0) ∧ f.kind ≠ .outOfProgram

theorem Controlled.fetches (h : m.Controlled) (hf : m.finished = false) : ∃ k i, m.Fetches k i := by
  obtain ⟨k, hk, hlt⟩ := h.running hf
  refine ⟨k, m.program.instructions[k], hf, hk, ?_⟩
  rw [Program.at?_natCast]
  exact Array.getElem?_eq_getElem hlt

theorem Controlled.at?_ne_none (h : m.Controlled) (hf : m.finished = false) :
    m.program.at? m.ip ≠ none := by
  obtain ⟨k, i, hi⟩ := h.fetches hf
  rw [hi.pointer, hi.instruction]
  nofun

theorem Controlled.fault (h : m.Controlled) (hf : m.finished = false) {f : Fault}
    (hk : f.kind ≠ .outOfProgram) : (m.fault f).Controlled where
  running := nofun
  halted := nofun
  faulted := by
    rintro index f' n ⟨⟩
    obtain ⟨k, hip, hlt⟩ := h.running hf
    refine ⟨rfl, rfl, ?_, hk⟩
    rw [hip]
    exact ⟨nofun, fun hz => absurd (hz ▸ hlt) (Nat.not_lt_zero k)⟩

theorem Controlled.after (hp : m.program.WellFormed) (hf : m.Fetches k i) (hc : m.Causes k i e) :
    (m.after k i e).Controlled := by
  cases hs : m.successor k e with
  | none =>
      have hr : (m.after k i e).result = some (.halted (m.steps + 1)) := by rw [after_result, if_pos hs]
      refine ⟨?_, ?_, ?_⟩
      · simp [finished, hr]
      · intro n hn
        rw [hr] at hn
        cases hn
        simp [hs]
      · simp [hr]
  | some j =>
      have hr : (m.after k i e).result = none := by
        rw [after_result, hs, if_neg (by simp), result_eq_none hf.running]
      refine ⟨fun _ => ?_, ?_, ?_⟩
      · obtain ⟨n, rfl, hn⟩ := hc.successor_lt hp hf hs
        exact ⟨n, by simp [hs], by simpa using hn⟩
      · simp [hr]
      · simp [hr]

theorem Blocked.kind_ne_outOfProgram (h : m.Controlled) (hf : m.finished = false) {f : Fault}
    (hb : m.Blocked f) : f.kind ≠ .outOfProgram := by
  cases hb with
  | lost hl => exact absurd hl (h.at?_ne_none hf)
  | meets _ hm => cases hm <;> nofun

/-- What one step keeps. -/
theorem Outcome.controlled {x : Option Failure} (ho : m.Outcome m' x) (hp : m.program.Ready)
    (h : m.Controlled) : m'.program = m.program ∧ m'.Controlled := by
  cases ho with
  | idle _ => exact ⟨rfl, h⟩
  | faulted hf hb _ => exact ⟨rfl, h.fault hf (hb.kind_ne_outOfProgram h hf)⟩
  | unreported _ _ _ => exact ⟨rfl, h⟩
  | @refused k i v t f hf hc ht =>
      have ht' : ({ m with output := t } : Machine).Controlled := ⟨h.running, h.halted, h.faulted⟩
      refine ⟨rfl, ht'.fault hf.running ?_⟩
      rw [ht.of_fault.1]
      nofun
  | unsent _ _ _ _ => exact ⟨rfl, h.running, h.halted, h.faulted⟩
  | completed hf hc _ _ => exact ⟨after_program, .after hp.loaded.wellFormed hf hc⟩
  | uncounted hf _ _ hw =>
      rw [hp.writable _ hf.mem] at hw
      cases hw

theorem kept_controlled : Kept fun m => m.program.Ready ∧ m.Controlled where
  step := by
    intro m ⟨hp, h⟩
    obtain ⟨hprog, hc⟩ := m.step_outcome.controlled hp h
    exact ⟨hprog ▸ hp, hc⟩
  limit := fun m hf ⟨hp, h⟩ => ⟨hp, h.fault hf nofun⟩
  openTrace := fun m w ⟨hp, h⟩ => ⟨hp, h.running, h.halted, h.faulted⟩
  closeTrace := fun m w ⟨hp, h⟩ => ⟨hp, h.running, h.halted, h.faulted⟩

/-! ## Histories -/

@[simp] theorem reset_program : m.reset.program = m.program := by
  simp only [reset]
  split <;> rfl

@[simp] theorem reset_output : m.reset.output = m.output := by
  simp only [reset]
  split <;> rfl

theorem reset_of_empty (h : m.program.size = 0) :
    m.reset.ip = none ∧ m.reset.steps = 0 ∧ m.reset.result = some (.faulted none .emptyProgram 0) := by
  simp [reset, Program.first_eq, h, Machine.fault]

theorem reset_of_nonempty (h : m.program.size ≠ 0) :
    m.reset.ip = some 0 ∧ m.reset.steps = 0 ∧ m.reset.result = none := by
  simp [reset, Program.first_eq, h]

/-- A machine that was reset has met no fault but the lack of instructions. -/
theorem reset_faulted {index : Option Int} {f : Fault} {n : Nat}
    (h : m.reset.result = some (.faulted index f n)) : f = .emptyProgram ∧ m.program.size = 0 := by
  by_cases hz : m.program.size = 0
  · rw [(reset_of_empty hz).2.2] at h
    cases h
    exact ⟨rfl, hz⟩
  · rw [(reset_of_nonempty hz).2.2] at h
    cases h

theorem Controlled.reset (m : Machine) : m.reset.Controlled := by
  by_cases hz : m.program.size = 0
  · obtain ⟨hi, hs, hr⟩ := reset_of_empty hz
    refine ⟨by simp [finished, hr], by simp [hr], ?_⟩
    intro index f n h
    rw [hr] at h
    cases h
    exact ⟨hi, hs.symm, by simp [hz], by simp [Fault.kind]⟩
  · obtain ⟨hi, hs, hr⟩ := reset_of_nonempty hz
    refine ⟨fun _ => ⟨0, hi, ?_⟩, by simp [hr], by simp [hr]⟩
    rw [reset_program]
    exact Nat.pos_of_ne_zero hz

theorem reset_finished_iff : m.reset.finished = true ↔ m.program.size = 0 := by
  by_cases hz : m.program.size = 0
  · simp [finished, reset_of_empty hz, hz]
  · simp [finished, reset_of_nonempty hz, hz]

end Machine

/-- What can be done to a machine from outside. -/
inductive Operation where
  | call (c : Call)
  | reset
  | offer (x : Offer)
  | setRegister (index value : Int)
  | rewind
  | mountInput (t : InputTape)
  | mountOutput (t : OutputTape)

namespace Operation

/-- The machine after an operation. A register with a negative index is not set. -/
def apply (m : Machine) : Operation → Machine
  | call c => (c.run m).1
  | reset => m.reset
  | offer x => (m.accept x).1
  | setRegister index value =>
    match m.registers.set index value with
    | .ok registers => { m with registers }
    | .error _ => m
  | rewind => { m with input := m.input.rewind }
  | mountInput t => { m with input := t }
  | mountOutput t => { m with output := t }

/-- The operation brings in no program that is not ready. -/
def Fit (op : Operation) : Prop := ∀ p, op = .offer (.program p) → p.Ready

variable {m : Machine}

/-- What one operation keeps. -/
theorem apply_controlled (op : Operation) (hop : op.Fit) (hp : m.program.Ready) (h : m.Controlled) :
    (op.apply m).program.Ready ∧ (op.apply m).Controlled := by
  cases op with
  | call c => exact Machine.kept_controlled.drive [c] ⟨hp, h⟩
  | reset => exact ⟨by simpa [apply] using hp, .reset m⟩
  | offer x =>
      cases x with
      | program p =>
          have hready : p.Ready := hop p rfl
          exact ⟨by simpa [apply, Machine.accept, Machine.install] using hready, .reset _⟩
      | other kind => exact ⟨hp, h⟩
  | setRegister index value =>
      simp only [apply]
      split
      · exact ⟨hp, h.running, h.halted, h.faulted⟩
      · exact ⟨hp, h⟩
  | rewind => exact ⟨hp, h.running, h.halted, h.faulted⟩
  | mountInput t => exact ⟨hp, h.running, h.halted, h.faulted⟩
  | mountOutput t => exact ⟨hp, h.running, h.halted, h.faulted⟩

end Operation

namespace Machine

variable {m : Machine} {p : Program}

/-- The machine after a sequence of operations. -/
def undergo (m : Machine) (ops : List Operation) : Machine := ops.foldl Operation.apply m

theorem undergo_controlled (ops : List Operation) (hops : ∀ op ∈ ops, op.Fit) (hp : m.program.Ready)
    (h : m.Controlled) : (m.undergo ops).program.Ready ∧ (m.undergo ops).Controlled := by
  induction ops generalizing m with
  | nil => exact ⟨hp, h⟩
  | cons op ops ih =>
      obtain ⟨hp', h'⟩ := op.apply_controlled (hops op (by simp)) hp h
      exact ih (fun op' hop' => hops op' (by simp [hop'])) hp' h'

theorem execute_stop_ne_fault (hp : m.program.Ready) (h : m.Controlled) (fuel : Nat) (o : RunOptions)
    (f : Fault) : (m.execute fuel o).stop ≠ .failed (.fault f) := by
  intro hx
  obtain ⟨m', ⟨-, h'⟩, hf, hs⟩ := kept_controlled.execute_failed ⟨hp, h⟩ hx
  exact h'.at?_ne_none hf (tracedStep_fault hs)

/-- Whatever is done to a new machine, its pointer is in the program until the run is over, and then its
result tells where the pointer stands and how many steps were made; the run never left the program. A
reset ends a run at once only for lack of instructions, what is no program is refused without a change,
and the instruction that an execution announces is always there. -/
theorem undergo_new_controlled (hp : p.Ready) (input : InputTape) (output : OutputTape)
    (ops : List Operation) (hops : ∀ q, .offer (.program q) ∈ ops → q.Ready)
    (hm : m = (Machine.new p input output).undergo ops) :
    m.Controlled ∧ (m.reset.finished = true ↔ m.program.size = 0) ∧
      (∀ kind, m.accept (.other kind) = (m, some ⟨kind⟩)) ∧
      ∀ fuel o f, (m.execute fuel o).stop ≠ .failed (.fault f) := by
  subst hm
  have hfit : ∀ op ∈ ops, op.Fit := by
    rintro op hop q rfl
    exact hops q hop
  have hnew : (Machine.new p input output).program.Ready := by simpa [Machine.new] using hp
  obtain ⟨hp', h'⟩ := undergo_controlled ops hfit hnew (.reset _)
  exact ⟨h', reset_finished_iff, fun _ => rfl, execute_stop_ne_fault hp' h'⟩

/-- Jumps to itself for ever. -/
def treadmill : Program := .ofInstructions [⟨.jump, some (.tag "here"), some "here"⟩]

/-- Some use of a machine, and some misuse. -/
def handling : List Operation :=
  [.call .step, .setRegister (-1) 7, .offer (.program treadmill), .rewind,
    .call (.execute 9 { limit := some 3 }), .offer (.other "int"), .call .step]

theorem undergo_new_controlled_treadmill :
    treadmill.Ready ∧
      ((Machine.new treadmill).undergo handling).result = some (.faulted (some 0) .limitReached 3) ∧
      ((Machine.new treadmill).undergo handling).Controlled := by
  have hl : Program.ofLines ["Here: jump here".toList] = .ok treadmill := by decide +kernel
  have hp : treadmill.Ready := .ofLines hl
  have hops : ∀ q, .offer (.program q) ∈ handling → q.Ready := by
    intro q hq
    have hq : q = treadmill := by simpa [handling] using hq
    rwa [hq]
  exact ⟨hp, by decide +kernel, (undergo_new_controlled hp {} {} handling hops rfl).1⟩

end Machine
end RandomAccess

import RandomAccess.Proofs.Machine.Control
import RandomAccess.Proofs.Machine.Limit

/-!
# Printing changes nothing

An execution that prints looks the next instruction up before each step, and the first registers after it.
The instruction is always there, and as long as all numbers have numerals the execution goes on like one
that prints nothing. What it prints is one line before and one line after each step, and a last line for a
fault.
-/

namespace RandomAccess

/-- The options of an execution that prints nothing and has another window. -/
def RunOptions.silent (o : RunOptions) (window : Int) : RunOptions := { o with debug := false, window }

namespace Machine

variable {m m' : Machine} {o : RunOptions} {k w : Int} {i : Instruction} {fuel n : Nat} {printed : String}

/-! ## The pointer on the way -/

/-- If the run goes on and has a pointer, the pointer is in the program. -/
def Placed (m : Machine) : Prop :=
  m.finished = false → ∀ k, m.ip = some k → ∃ n : Nat, k = n ∧ n < m.program.size

theorem Fetches.placed (h : m.Fetches k i) : m.Placed := by
  rintro - j hj
  obtain ⟨n, rfl, hi⟩ := Program.at?_eq_some h.instruction
  cases h.pointer.symm.trans hj
  exact ⟨n, rfl, (Array.getElem?_eq_some_iff.mp hi).1⟩

/-- An instruction that is not counted moves the pointer only if it jumps. -/
theorem Fetches.placed_perform (hf : m.Fetches k i) (hp : m.program.WellFormed) {e : Effect}
    (hc : m.Causes k i e) : { (m.perform e).1 with steps := m.steps + 1 }.Placed := by
  cases e with
  | goto t =>
      rintro - j hj
      exact hc.successor_lt hp hf hj
  | assign => exact hf.placed
  | input => exact hf.placed
  | output => exact hf.placed

theorem Outcome.placed {x : Option Failure} (ho : m.Outcome m' x) (hp : m.program.WellFormed)
    (h : m.Placed) : m'.program = m.program ∧ m'.Placed := by
  cases ho with
  | idle => exact ⟨rfl, h⟩
  | faulted => exact ⟨rfl, nofun⟩
  | unreported => exact ⟨rfl, h⟩
  | refused => exact ⟨rfl, nofun⟩
  | unsent => exact ⟨rfl, h⟩
  | completed hf hc =>
      refine ⟨after_program, fun hrun j hj => ?_⟩
      obtain ⟨n, hn, hlt⟩ := (Controlled.after hp hf hc).running hrun
      rw [hn] at hj
      cases hj
      exact ⟨n, rfl, hlt⟩
  | uncounted hf hc => exact ⟨perform_program, hf.placed_perform hp hc⟩

theorem Controlled.placed (h : m.Controlled) : m.Placed := by
  intro hf j hj
  obtain ⟨n, hn, hlt⟩ := h.running hf
  rw [hn] at hj
  cases hj
  exact ⟨n, rfl, hlt⟩

theorem Controlled.pointed (h : m.Controlled) (hk : m.ip = none) : m.finished = true := by
  cases hf : m.finished with
  | true => rfl
  | false =>
      obtain ⟨n, hn, -⟩ := h.running hf
      rw [hk] at hn
      cases hn

/-- The next instruction is there as long as the run goes on. -/
structure Located (m : Machine) : Prop where
  wellFormed : m.program.WellFormed
  placed : m.Placed
  pointed : m.ip = none → m.finished = true

theorem Located.fetches (h : m.Located) (hf : m.finished = false) : ∃ k i, m.Fetches k i := by
  cases hk : m.ip with
  | none =>
      rw [h.pointed hk] at hf
      cases hf
  | some k =>
      obtain ⟨n, rfl, hlt⟩ := h.placed hf k hk
      refine ⟨n, m.program.instructions[n], hf, hk, ?_⟩
      rw [Program.at?_natCast]
      exact Array.getElem?_eq_getElem hlt

theorem Located.step (h : m.Located) (hs : m.step.2 = none) : m.step.1.Located := by
  have ho := m.step_outcome
  obtain ⟨hprog, hplaced⟩ := ho.placed h.wellFormed h.placed
  refine ⟨hprog ▸ h.wellFormed, hplaced, fun hk => ?_⟩
  rw [hs] at ho
  generalize m.step.1 = m' at ho hk
  -- only a completed instruction takes the pointer away, and then the run is over
  cases ho with
  | idle hf => exact hf
  | faulted => rfl
  | refused => rfl
  | completed =>
      rw [after_ip] at hk
      rw [finished, after_result, if_pos hk]
      rfl

theorem Located.ahead (h : m.Located) (hp : m.Proceeds o n) : (m.ahead n).Located := by
  induction n with
  | zero => exact h
  | succ n ih =>
      rw [ahead_succ]
      exact (ih (hp.mono (Nat.le_succ n))).step (hp n (Nat.lt_succ_self n)).step

/-! ## The lines around a step -/

def heading (m : Machine) : String :=
  match m.program.at? m.ip with
  | some i => "IP: " ++ Result.indexText m.ip ++ " Instruction: " ++ i.text ++ "\n"
  | none => ""

def row (m : Machine) (w : Int) : String :=
  " | ".intercalate ((List.range w.toNat).map fun j =>
    "R" ++ toString j ++ ": " ++ Numeral.text (m.registers.cell j)) ++ "\n"

/-- The numbers that are printed before and after the next step have numerals. -/
structure Prints (m : Machine) (w : Int) : Prop where
  instruction : ∀ i, m.program.at? m.ip = some i → i.writable = true
  registers : m.step.2 = none → ∀ v ∈ m.step.1.registers.window w, Numeral.writable v = true

theorem announcement_eq (hf : m.Fetches k i) (hw : i.writable = true) :
    m.announcement = .ok m.heading := by
  have hi : m.program.at? m.ip = some i := by rw [hf.pointer, hf.instruction]
  simp only [announcement, heading, Program.fetch, hi, bind, Except.bind, if_pos hw]
  rfl

theorem zipIdx_map_range {α : Type} (f : Nat → α) (n : Nat) :
    ((List.range n).map f).zipIdx = (List.range n).map fun j => (f j, j) := by
  apply List.ext_getElem
  · simp
  · simp

theorem display_eq (hw : ∀ v ∈ m.registers.window w, Numeral.writable v = true) :
    m.display w = .ok (m.row w) := by
  rw [display, if_pos (List.all_eq_true.mpr hw), row, Registers.window, zipIdx_map_range, List.map_map]
  rfl

theorem tracedStep_of_debug (hd : o.debug = true) (hf : m.Fetches k i) (hp : m.Prints o.window) :
    m.tracedStep o =
      (m.step.1, if m.step.2 = none then m.heading ++ m.step.1.row o.window else m.heading, m.step.2) := by
  have ha := announcement_eq hf (hp.instruction i (by rw [hf.pointer, hf.instruction]))
  rw [tracedStep, if_pos hd, ha]
  rcases hs : m.step with ⟨m₁, _ | x⟩
  · have hr := hp.registers (by rw [hs])
    rw [hs] at hr
    simp only [display_eq hr, if_pos]
  · simp

/-! ## Rounds with and without printing -/

/-- All numbers that an execution prints have numerals. -/
def Printable (m : Machine) (o : RunOptions) : Prop :=
  ∀ n, m.Proceeds (o.silent o.window) n → (m.ahead n).finished = false →
    (m.ahead n).exhausted o = false → (m.ahead n).Prints o.window

theorem Proceeds.silent_congr {w w' : Int} (h : m.Proceeds (o.silent w) n) : m.Proceeds (o.silent w') n :=
  fun j hj => ⟨(h j hj).running, (h j hj).within, (h j hj).returned⟩

theorem transcript_silent (m : Machine) (o : RunOptions) (w : Int) (n : Nat) :
    m.transcript (o.silent w) n = "" := by
  induction n generalizing m with
  | zero => rfl
  | succ n ih =>
      rw [transcript_succ, ih, tracedStep_of_silent rfl]
      rfl

/-- What is printed around `n` steps. -/
def lines (m : Machine) (w : Int) (n : Nat) : String :=
  String.join ((List.range n).map fun j => (m.ahead j).heading ++ (m.ahead (j + 1)).row w)

theorem Returns.traced (h : m.Returns (o.silent w)) (hd : o.debug = true) (hl : m.Located)
    (hp : m.Prints o.window) :
    m.Returns o ∧ (m.tracedStep o).2.1 = m.heading ++ m.step.1.row o.window := by
  obtain ⟨k, i, hf⟩ := hl.fetches h.running
  have ht := tracedStep_of_debug hd hf hp
  rw [if_pos h.step] at ht
  refine ⟨⟨h.running, h.within, ?_⟩, by rw [ht]⟩
  rw [ht]
  exact h.step

theorem Proceeds.traced (h : m.Proceeds (o.silent w) n) (hd : o.debug = true) (hl : m.Located)
    (hp : m.Printable o) : m.Proceeds o n ∧ m.transcript o n = m.lines o.window n := by
  have hround : ∀ j < n, (m.ahead j).Returns o ∧ ((m.ahead j).tracedStep o).2.1 =
      (m.ahead j).heading ++ (m.ahead (j + 1)).row o.window := by
    intro j hj
    have hr := h j hj
    have hj := h.mono (Nat.le_of_lt hj)
    rw [ahead_succ]
    exact hr.traced hd (hl.ahead hj) (hp j hj.silent_congr hr.running hr.within)
  refine ⟨fun j hj => (hround j hj).1, congrArg String.join (List.map_congr_left fun j hj => ?_)⟩
  exact (hround j (List.mem_range.mp hj)).2

theorem Ends.traced (h : m.Ends (o.silent w) m') : m.Ends o m' := by
  cases h with
  | finished h => exact .finished h
  | limit h he => exact .limit h he

theorem Stops.traced {e : Execution} (h : m.Stops (o.silent w) printed fuel e) (hd : o.debug = true)
    (hl : m.Located) (hp : m.finished = false → m.exhausted o = false → m.Prints o.window) (text : String) :
    ∃ t, m.Stops o text fuel { e with printed := t } := by
  cases h with
  | ended h => exact ⟨_, .ended h.traced⟩
  | failed hf he hs =>
      obtain ⟨k, i, hi⟩ := hl.fetches hf
      have ht := tracedStep_of_debug hd hi (hp hf he)
      rw [tracedStep_of_silent rfl] at hs
      simp only [Prod.mk.injEq] at hs
      obtain ⟨rfl, -, hx⟩ := hs
      rw [hx] at ht
      exact ⟨_, .failed hf he ht⟩
  | outOfFuel hf he => exact ⟨_, .outOfFuel hf he⟩

theorem loop_silent_printed (m : Machine) (o : RunOptions) (w : Int) (fuel : Nat) :
    (m.loop (o.silent w) fuel "").printed = "" := by
  obtain ⟨n, rest, rfl, hp, hs⟩ := loop_stops m (o.silent w) fuel ""
  rw [transcript_silent] at hs
  generalize m.loop (o.silent w) (n + rest) "" = e at hs
  cases hs with
  | ended => rfl
  | failed _ _ hs =>
      rw [tracedStep_of_silent rfl] at hs
      cases (Prod.mk.inj (Prod.mk.inj hs).2).1
      rfl
  | outOfFuel => rfl

theorem Same.symm (h : m.Same m') : m'.Same m :=
  ⟨h.program.symm, h.registers.symm, h.input.symm, h.output.symm, h.ip.symm, h.steps.symm, h.result.symm,
    h.counts.symm, h.executed.symm⟩

theorem epilogue_of_silent (m : Machine) (o : RunOptions) (w : Int) : m.epilogue (o.silent w) = "" := by
  unfold epilogue
  cases m.result <;> rfl

theorem execute_silent_printed (m : Machine) (o : RunOptions) (w : Int) (fuel : Nat) :
    (m.execute fuel (o.silent w)).printed = "" := by
  have hl := loop_silent_printed m o w fuel
  rcases he : m.loop (o.silent w) fuel "" with ⟨m', t, x⟩
  simp only [he] at hl
  by_cases hx : x = .finished
  · subst hx
    rw [execute_of_ended he, epilogue_of_silent, hl]
    rfl
  · rw [execute_of_broken (by rw [he]; exact hx), he]
    exact hl

/-- What an execution of `m` that ends in `m'` has noted with the window `w`. -/
structure Notes (m m' : Machine) (w : Int) : Prop where
  initial : m.trace.initial = none →
    m'.trace.initial = some ((List.range (max w 0).toNat).map m.registers.cell)
  /-- The note of an earlier execution stays. -/
  earlier : ∀ vs, m.trace.initial = some vs → m'.trace.initial = some vs
  final : m'.trace.final = some ((List.range (max w 0).toNat).map m'.registers.cell)
  used : m'.trace.used = some m'.registers.used

theorem window_eq (r : Registers) (w : Int) : r.window w = (List.range (max w 0).toNat).map r.cell := by
  rw [Registers.window]
  congr 2
  omega

theorem Notes.noted (m m' : Machine) (w : Int) : m.Notes (m'.noted (m.note w) w) w where
  initial h := by simp [Machine.noted, opened, closeTrace, note, h, window_eq]
  earlier vs h := by simp [Machine.noted, opened, closeTrace, note, h]
  final := congrArg some (window_eq _ _)
  used := rfl

end Machine
end RandomAccess

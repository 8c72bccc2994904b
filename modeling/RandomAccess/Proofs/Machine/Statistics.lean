import RandomAccess.Proofs.Machine.Control
import RandomAccess.Proofs.Numeral

/-!
# What the statistics tell

Beside a machine runs a ledger of the instructions that it completed and the registers that were written
since the last reset. The statistics of the machine are read off the ledger: the counts are the numbers of
entries, the keys come in the order of first entries, and the registers used are those up to the highest
entry.
-/

namespace RandomAccess

/-! ## Keys -/

namespace Machine

theorem toList_key (n : Nat) (i : Instruction) :
    (key n i).toList = Nat.toDigits 10 n ++ ' ' :: i.body.toList := by
  simp [key, Numeral.toList_text]

theorem key_index {n n' : Nat} {i i' : Instruction} (h : key n i = key n' i') : n = n' := by
  -- the index ends at the first blank
  have hblank (n : Nat) : ∀ c ∈ Nat.toDigits 10 n, c.isDigit = true := Numeral.isDigit_toDigits
  have hlist := congrArg String.toList h
  rw [toList_key, toList_key] at hlist
  obtain ⟨hdigits, -⟩ := Text.run_unique (hblank n) (.cons rfl) (hblank n') (.cons rfl) hlist
  rw [← Numeral.ofDigits_toDigits n, hdigits, Numeral.ofDigits_toDigits]

end Machine

/-- The key of the instruction at index `n`. -/
def Program.keyAt (p : Program) (n : Nat) : String := (p.instructions[n]?).elim "" (Machine.key n)

theorem Program.keyAt_eq {p : Program} {n : Nat} {i : Instruction} (h : p.instructions[n]? = some i) :
    p.keyAt n = Machine.key n i := by
  rw [keyAt, h]
  rfl

namespace Trace

variable (key other : String) (t : List (String × Nat))

theorem sum_bump : ((bump key t).map Prod.snd).sum = (t.map Prod.snd).sum + 1 := by
  fun_induction bump key t with
  | case1 => rfl
  | case2 n r =>
      simp only [List.map_cons, List.sum_cons]
      omega
  | case3 k n r _ ih =>
      simp only [List.map_cons, List.sum_cons, ih]
      omega

theorem keys_bump : (bump key t).map Prod.fst =
    if key ∈ t.map Prod.fst then t.map Prod.fst else t.map Prod.fst ++ [key] := by
  fun_induction bump key t with
  | case1 => rfl
  | case2 n r => simp
  | case3 k n r hk ih =>
      simp only [List.map_cons, ih, List.mem_cons, Ne.symm hk, false_or]
      split <;> rfl

theorem lookup_bump : (bump key t).lookup other =
    if other = key then some ((t.lookup key).getD 0 + 1) else t.lookup other := by
  fun_induction bump key t with
  | case1 =>
      by_cases h : other = key
      · simp [h]
      · simp [List.lookup_cons, h, beq_eq_false_iff_ne.mpr h]
  | case2 n r =>
      by_cases h : other = key
      · simp [h]
      · simp [List.lookup_cons, h, beq_eq_false_iff_ne.mpr h]
  | case3 k n r hk ih =>
      simp only [List.lookup_cons, ih, beq_eq_false_iff_ne.mpr (Ne.symm hk)]
      by_cases h : other = k
      · simp [h, hk]
      · simp [beq_eq_false_iff_ne.mpr h]

end Trace

/-! ## The ledger -/

structure Ledger where
  /-- The indices of the completed instructions, in order. -/
  completed : List Nat := []
  /-- The registers written, in order. -/
  written : List Nat := []

/-- The register that an effect writes. -/
def Effect.register : Effect → Option Nat
  | .assign n _ | .input n _ => some n
  | .output _ | .goto _ => none

namespace Machine

/-- The instruction that the next step completes, by its index, with its effect. -/
def completes (m : Machine) : Option (Nat × Effect) :=
  if m.finished then none
  else match m.plan with
    | .ok (k, _, e) => if (m.perform e).2.isNone then some (k.toNat, e) else none
    | .error _ => none

/-- The machines at which an execution makes a step, in order. A step that is to be announced and cannot
be is not made. -/
def stations (o : RunOptions) : Nat → Machine → List Machine
  | 0, _ => []
  | fuel + 1, m =>
    if m.finished || m.exhausted o || (o.debug && !m.announcement.isOk) then []
    else m :: if (m.tracedStep o).2.2.isNone then stations o fuel m.step.1 else []

end Machine

namespace Ledger

/-- The ledger after a step of the machine. -/
def step (l : Ledger) (m : Machine) : Ledger where
  completed := l.completed ++ (m.completes.map Prod.fst).toList
  written := l.written ++ (m.completes.bind (·.2.register)).toList

/-- The ledger after an operation on the machine. -/
def apply (l : Ledger) (m : Machine) : Operation → Ledger
  | .call .step => l.step m
  | .call (.execute fuel o) => (Machine.stations o fuel (m.openTrace o.window)).foldl step l
  | .reset | .offer (.program _) => {}
  | .setRegister index _ => if index < 0 then l else { l with written := l.written ++ [index.toNat] }
  | .offer (.other _) | .rewind | .mountInput _ | .mountOutput _ => l

/-- The ledger of a machine that undergoes operations. -/
def undergo (l : Ledger) (m : Machine) : List Operation → Ledger
  | [] => l
  | op :: ops => (l.apply m op).undergo (op.apply m) ops

end Ledger

/-- One more than the greatest entry, or zero. -/
inductive Extent (entries : List Nat) : Nat → Prop where
  | none (h : entries = []) : Extent entries 0
  | some {n : Nat} (h : n ∈ entries) (hmax : ∀ k ∈ entries, k ≤ n) : Extent entries (n + 1)

theorem Extent.concat {entries : List Nat} {u : Nat} (h : Extent entries u) (n : Nat) :
    Extent (entries ++ [n]) (max u (n + 1)) := by
  cases h with
  | none h =>
      rw [h, Nat.max_eq_right (Nat.zero_le _)]
      exact .some (by simp) (by simp)
  | @some k h hmax =>
      rw [Nat.add_max_add_right]
      refine .some ?_ ?_
      · rcases Nat.le_total k n with hle | hle
        · simp [Nat.max_eq_right hle]
        · simp [Nat.max_eq_left hle, h]
      · intro j hj
        rcases List.mem_append.mp hj with hj | hj
        · have := hmax j hj
          omega
        · rw [List.mem_singleton.mp hj]
          exact Nat.le_max_right k n

/-! ## One step -/

namespace Machine

variable {m : Machine} {l : Ledger} {o : RunOptions}

theorem completes_of_plan_error (hf : m.finished = false) {x : Failure} (hp : m.plan = .error x) :
    m.completes = none := by
  simp [completes, hf, hp]

theorem completes_of_plan_ok (hf : m.finished = false) {k : Int} {i : Instruction} {e : Effect}
    (hp : m.plan = .ok (k, i, e)) :
    m.completes = if (m.perform e).2.isNone then some (k.toNat, e) else none := by
  simp [completes, hf, hp]

/-- The step has left alone what the statistics are about. -/
structure Idles (m m' : Machine) : Prop where
  program : m'.program = m.program
  registers : m'.registers = m.registers
  steps : m'.steps = m.steps
  trace : m'.trace = m.trace

theorem Idles.fail {m' : Machine} (h : m.Idles m') (x : Failure) : m.Idles (m'.fail x).1 := by
  cases x with
  | fault f => exact ⟨h.program, h.registers, h.steps, h.trace⟩
  | _ => exact h

theorem Idles.output (t : OutputTape) : m.Idles { m with output := t } := ⟨rfl, rfl, rfl, rfl⟩

/-- Where every instruction has a text, a step completes an instruction and counts it, or does neither. -/
theorem completes_cases (hw : ∀ i ∈ m.program.instructions, i.writable = true) :
    m.completes = none ∧ m.Idles m.step.1 ∨
      ∃ n i e, m.completes = some (n, e) ∧ m.program.instructions[n]? = some i ∧
        m.step.1 = m.after n i e := by
  cases hf : m.finished with
  | true =>
      rw [step_of_finished hf]
      exact Or.inl ⟨by simp [completes, hf], rfl, rfl, rfl, rfl⟩
  | false =>
      rcases plan_cases hf with ⟨k, i, e, hp, hfetch, -⟩ | ⟨f, hp, -⟩
      · cases hx : (m.perform e).2 with
        | none =>
            obtain ⟨n, rfl, hi⟩ := Program.at?_eq_some hfetch.instruction
            refine Or.inr ⟨n, i, e, ?_, hi, ?_⟩
            · rw [completes_of_plan_ok hf hp, hx]
              rfl
            · rw [step_of_perform_none hf hp hx, if_pos (hw i hfetch.mem)]
        | some x =>
            refine Or.inl ⟨by rw [completes_of_plan_ok hf hp, hx]; rfl, ?_⟩
            rw [step_of_perform_some hf hp hx]
            -- only an effect on the output tape fails
            cases e with
            | output v => exact (Idles.output _).fail x
            | _ => cases hx
      · rw [step_of_plan_error hf hp]
        exact Or.inl ⟨completes_of_plan_error hf hp, .fail ⟨rfl, rfl, rfl, rfl⟩ _⟩

theorem after_counts {k : Int} {i : Instruction} {e : Effect} :
    (m.after k i e).trace.counts = Trace.bump (key k i) m.trace.counts := by
  rw [after_eq]
  cases e <;> rfl

theorem after_executed {k : Int} {i : Instruction} {e : Effect} :
    (m.after k i e).trace.executed = m.steps + 1 := by
  rw [after_eq]
  rfl

theorem extent_perform {entries : List Nat} (h : Extent entries m.registers.used) (e : Effect) :
    Extent (entries ++ e.register.toList) (m.perform e).1.registers.used := by
  cases e with
  | assign n v => exact h.concat n
  | input n v => exact h.concat n
  | output v => simpa [Effect.register, perform] using h
  | goto t => simpa [Effect.register, perform] using h

/-! ## The invariant -/

/-- The statistics of the machine are those of the ledger. -/
structure Recorded (m : Machine) (l : Ledger) : Prop where
  writable : ∀ i ∈ m.program.instructions, i.writable = true
  stored : ∀ n ∈ l.completed, n < m.program.size
  steps : m.steps = l.completed.length
  executed : m.trace.executed = m.steps
  total : (m.trace.counts.map Prod.snd).sum = m.steps
  keys : m.trace.counts.map Prod.fst = l.completed.eraseDups.map m.program.keyAt
  count : ∀ n < m.program.size, m.trace.counts.lookup (m.program.keyAt n) =
    if n ∈ l.completed then some (l.completed.count n) else none
  used : Extent l.written m.registers.used

theorem keyAt_inj {p : Program} {n n' : Nat} (hn : n < p.size) (hn' : n' < p.size)
    (h : p.keyAt n = p.keyAt n') : n = n' := by
  rw [Program.keyAt_eq (Array.getElem?_eq_getElem hn), Program.keyAt_eq (Array.getElem?_eq_getElem hn')] at h
  exact key_index h

theorem Recorded.idles {m' : Machine} (h : m.Recorded l) (hm : m.Idles m') : m'.Recorded l where
  writable := hm.program ▸ h.writable
  stored := hm.program ▸ h.stored
  steps := hm.steps.trans h.steps
  executed := by rw [hm.trace, hm.steps, h.executed]
  total := by rw [hm.trace, hm.steps, h.total]
  keys := by rw [hm.trace, hm.program, h.keys]
  count := by
    rw [hm.trace, hm.program]
    exact h.count
  used := hm.registers ▸ h.used

theorem Recorded.mem_keys (h : m.Recorded l) {n : Nat} (hn : n < m.program.size) :
    m.program.keyAt n ∈ m.trace.counts.map Prod.fst ↔ n ∈ l.completed := by
  rw [h.keys, List.mem_map]
  constructor
  · rintro ⟨k, hk, he⟩
    have hk := List.mem_eraseDups.mp hk
    rwa [← keyAt_inj (h.stored k hk) hn he]
  · intro hmem
    exact ⟨n, List.mem_eraseDups.mpr hmem, rfl⟩

theorem Recorded.keys_bump (h : m.Recorded l) {n : Nat} (hn : n < m.program.size) :
    (Trace.bump (m.program.keyAt n) m.trace.counts).map Prod.fst =
      (l.completed ++ [n]).eraseDups.map m.program.keyAt := by
  rw [Trace.keys_bump, List.eraseDups_append, List.cons_removeAll, List.nil_removeAll]
  by_cases hmem : n ∈ l.completed
  · rw [if_pos ((h.mem_keys hn).mpr hmem), h.keys]
    simp [hmem]
  · have hone : [n].eraseDups = [n] := rfl
    rw [if_neg (mt (h.mem_keys hn).mp hmem), h.keys]
    simp [hmem, hone]

theorem Recorded.count_bump (h : m.Recorded l) {n k : Nat} (hn : n < m.program.size)
    (hk : k < m.program.size) :
    (Trace.bump (m.program.keyAt n) m.trace.counts).lookup (m.program.keyAt k) =
      if k ∈ l.completed ++ [n] then some ((l.completed ++ [n]).count k) else none := by
  rw [Trace.lookup_bump, h.count n hn, h.count k hk, List.count_append]
  by_cases hkn : k = n
  · subst hkn
    by_cases hmem : k ∈ l.completed
    · simp [hmem]
    · simp [hmem, List.count_eq_zero.mpr hmem]
  · have hne : m.program.keyAt k ≠ m.program.keyAt n := fun he => hkn (keyAt_inj hk hn he)
    simp [hne, hkn, Ne.symm hkn]

theorem Recorded.after (h : m.Recorded l) {n : Nat} {i : Instruction}
    (hi : m.program.instructions[n]? = some i) (e : Effect) :
    (m.after n i e).Recorded ⟨l.completed ++ [n], l.written ++ e.register.toList⟩ := by
  have hn : n < m.program.size := (Array.getElem?_eq_some_iff.mp hi).1
  have hcounts : (m.after n i e).trace.counts = Trace.bump (m.program.keyAt n) m.trace.counts := by
    rw [after_counts, Program.keyAt_eq hi]
  refine ⟨?_, ?_, ?_, ?_, ?_, ?_, ?_, ?_⟩
  · rw [after_program]
    exact h.writable
  · rw [after_program]
    intro k hk
    rcases List.mem_append.mp hk with hk | hk
    · exact h.stored k hk
    · rwa [List.mem_singleton.mp hk]
  · rw [after_steps, h.steps, List.length_append, List.length_singleton]
  · rw [after_executed, after_steps]
  · rw [hcounts, Trace.sum_bump, h.total, after_steps]
  · rw [hcounts, after_program, h.keys_bump hn]
  · rw [hcounts, after_program]
    exact fun k hk => h.count_bump hn hk
  · rw [after_registers]
    exact extent_perform h.used e

theorem Recorded.step (h : m.Recorded l) : m.step.1.Recorded (l.step m) := by
  rcases completes_cases h.writable with ⟨hc, hm⟩ | ⟨n, i, e, hc, hi, hm⟩
  · have hl : l.step m = l := by simp [Ledger.step, hc]
    rw [hl]
    exact h.idles hm
  · have hl : l.step m = ⟨l.completed ++ [n], l.written ++ e.register.toList⟩ := by
      simp [Ledger.step, hc]
    rw [hl, hm]
    exact h.after hi e

/-! ## Calls -/

theorem Recorded.fault (h : m.Recorded l) (f : Fault) : (m.fault f).Recorded l :=
  h.idles ⟨rfl, rfl, rfl, rfl⟩

theorem Recorded.noted (h : m.Recorded l) (initial final : Option (List Int)) (used : Option Nat) :
    Recorded { m with trace := { m.trace with initial, final, used } } l :=
  ⟨h.writable, h.stored, h.steps, h.executed, h.total, h.keys, h.count, h.used⟩

theorem tracedStep_of_silenced (hd : o.debug = true) (ha : m.announcement.isOk = false) :
    ∃ x, m.tracedStep o = (m, "", some x) := by
  unfold tracedStep
  rw [if_pos hd]
  cases hx : m.announcement with
  | error x => exact ⟨x, rfl⟩
  | ok t => rw [hx] at ha; cases ha

theorem tracedStep_of_announced (ha : (o.debug && !m.announcement.isOk) = false) :
    (m.tracedStep o).1 = m.step.1 := by
  unfold tracedStep
  cases hd : o.debug with
  | false => rfl
  | true =>
      cases hx : m.announcement with
      | error x => simp [hd, hx, Except.isOk, Except.toBool] at ha
      | ok t =>
          rcases m.step with ⟨m', _ | x⟩
          · simp only [if_true]
            cases m'.display o.window <;> rfl
          · rfl

theorem stations_of_over (h : (m.finished || m.exhausted o || (o.debug && !m.announcement.isOk)) = true)
    (fuel : Nat) : stations o fuel m = [] := by
  cases fuel with
  | zero => rfl
  | succ fuel => rw [stations, if_pos h]

theorem stations_succ (hf : m.finished = false) (he : m.exhausted o = false)
    (ha : (o.debug && !m.announcement.isOk) = false) (fuel : Nat) :
    stations o (fuel + 1) m =
      m :: if (m.tracedStep o).2.2.isNone then stations o fuel m.step.1 else [] := by
  rw [stations, hf, he, ha]
  rfl

/-- The steps that an execution makes are those of its stations. -/
theorem Recorded.loop (h : m.Recorded l) (fuel : Nat) (printed : String) :
    (m.loop o fuel printed).machine.Recorded ((stations o fuel m).foldl Ledger.step l) := by
  -- on the fuel: the machine and the ledger change from round to round
  induction fuel generalizing m l printed with
  | zero =>
      cases hf : m.finished with
      | true => rw [loop_of_finished hf]; exact h
      | false =>
          cases he : m.exhausted o with
          | true => rw [loop_of_exhausted hf he]; exact h.fault _
          | false => rw [loop_zero hf he]; exact h
  | succ fuel ih =>
      cases hf : m.finished with
      | true => rw [loop_of_finished hf, stations_of_over (by simp [hf])]; exact h
      | false =>
          cases he : m.exhausted o with
          | true => rw [loop_of_exhausted hf he, stations_of_over (by simp [he])]; exact h.fault _
          | false =>
              cases ha : o.debug && !m.announcement.isOk with
              | true =>
                  obtain ⟨hd, ha'⟩ := Bool.and_eq_true_iff.mp ha
                  obtain ⟨x, hx⟩ := tracedStep_of_silenced hd (by simpa using ha')
                  rw [loop_of_failed hf he hx, stations_of_over (by simp [ha])]
                  exact h
              | false =>
                  have hstep := tracedStep_of_announced ha
                  rw [stations_succ hf he ha]
                  rcases hs : m.tracedStep o with ⟨m', t, _ | x⟩
                  · rw [hs] at hstep
                    rw [loop_succ hf he hs, show m' = m.step.1 from hstep]
                    exact ih h.step _
                  · rw [hs] at hstep
                    rw [loop_of_failed hf he hs, show m' = m.step.1 from hstep]
                    exact h.step

theorem Recorded.execute (h : m.Recorded l) (fuel : Nat) (o : RunOptions) :
    (m.execute fuel o).machine.Recorded (l.apply m (.call (.execute fuel o))) ∧
      ((m.execute fuel o).stop = .finished →
        (m.execute fuel o).machine.trace.used = some (m.execute fuel o).machine.registers.used) := by
  have hl := (h.noted (m.openTrace o.window).trace.initial m.trace.final m.trace.used).loop (o := o) fuel ""
  unfold Machine.execute
  dsimp only
  split
  · exact ⟨hl.noted _ _ _, fun _ => rfl⟩
  · rename_i hs
    exact ⟨hl, fun hx => absurd hx hs⟩

end Machine

/-! ## Histories -/

namespace Operation

variable {m : Machine} {l : Ledger}

/-- All instructions that the operation brings in have a text. -/
def Legible (op : Operation) : Prop :=
  ∀ p, op = .offer (.program p) → ∀ i ∈ p.instructions, i.writable = true

theorem reset_recorded (hw : ∀ i ∈ m.program.instructions, i.writable = true) : m.reset.Recorded {} := by
  have hempty : Machine.Recorded
      { m with registers := {}, ip := none, steps := 0, result := none, trace := {} } {} :=
    ⟨hw, nofun, rfl, rfl, rfl, rfl, fun _ _ => rfl, .none rfl⟩
  unfold Machine.reset
  dsimp only
  split
  · exact hempty.idles ⟨rfl, rfl, rfl, rfl⟩
  · exact hempty.fault _

theorem apply_recorded (op : Operation) (hop : op.Legible) (h : m.Recorded l) :
    (op.apply m).Recorded (l.apply m op) := by
  cases op with
  | call c =>
      cases c with
      | step => exact h.step
      | execute fuel o => exact (h.execute fuel o).1
  | reset => exact reset_recorded h.writable
  | offer x =>
      cases x with
      | program p => exact reset_recorded (m := { m with program := p }) (hop p rfl)
      | other kind => exact h
  | setRegister index value =>
      by_cases hneg : index < 0
      · simp only [apply, Ledger.apply, Registers.set, Registers.index, if_pos hneg]
        exact h
      · simp only [apply, Ledger.apply, Registers.set, Registers.index, if_neg hneg]
        exact ⟨h.writable, h.stored, h.steps, h.executed, h.total, h.keys, h.count,
          h.used.concat index.toNat⟩
  | rewind | mountInput | mountOutput => exact h.idles ⟨rfl, rfl, rfl, rfl⟩

end Operation

namespace Machine

variable {m : Machine} {l : Ledger} {p : Program}

theorem undergo_recorded (ops : List Operation) (hops : ∀ op ∈ ops, op.Legible) (h : m.Recorded l) :
    (m.undergo ops).Recorded (l.undergo m ops) := by
  induction ops generalizing m l with
  | nil => exact h
  | cons op ops ih =>
      exact ih (fun op' hop' => hops op' (by simp [hop'])) (op.apply_recorded (hops op (by simp)) h)

/-- Whatever is done to a new machine whose instructions can be written as text, the statistics agree with the
ledger since the last reset: the steps are the completed instructions, each counted under a key of its own,
and the keys come in the order in which the instructions first completed. An execution that ends notes how
many registers there are up to the highest one written. -/
theorem undergo_new_statistics (hp : ∀ i ∈ p.instructions, i.writable = true) (input : InputTape)
    (output : OutputTape) (ops : List Operation)
    (hops : ∀ q, .offer (.program q) ∈ ops → ∀ i ∈ q.instructions, i.writable = true)
    (hm : m = (Machine.new p input output).undergo ops)
    (hl : l = Ledger.undergo {} (Machine.new p input output) ops) :
    m.trace.executed = m.steps ∧ m.steps = l.completed.length ∧
      (m.trace.counts.map Prod.snd).sum = m.steps ∧
      (∀ (n n' : Nat) i i', key n i = key n' i' → n = n') ∧
      (∀ n ∈ l.completed, n < m.program.size) ∧
      (∀ (n : Nat) i, m.program.instructions[n]? = some i → n ∈ l.completed →
        m.trace.counts.lookup (key n i) = some (l.completed.count n)) ∧
      (∀ (n : Nat) i, m.program.instructions[n]? = some i → n ∉ l.completed →
        key n i ∉ m.trace.counts.map Prod.fst) ∧
      m.trace.counts.map Prod.fst = l.completed.eraseDups.map m.program.keyAt ∧
      ∀ fuel o, (m.execute fuel o).stop = .finished →
        ∃ u, (m.execute fuel o).machine.trace.used = some u ∧
          Extent (l.apply m (.call (.execute fuel o))).written u := by
  have hlegible : ∀ op ∈ ops, op.Legible := by
    rintro op hop q rfl
    exact hops q hop
  have h : m.Recorded l := by
    rw [hm, hl]
    exact undergo_recorded ops hlegible (Operation.reset_recorded hp)
  refine ⟨h.executed, h.steps, h.total, fun _ _ _ _ => key_index, h.stored, ?_, ?_, h.keys, ?_⟩
  · intro n i hi hmem
    rw [← Program.keyAt_eq hi, h.count n (h.stored n hmem), if_pos hmem]
  · intro n i hi hmem
    rw [← Program.keyAt_eq hi]
    exact mt (h.mem_keys (Array.getElem?_eq_some_iff.mp hi).1).mp hmem
  · intro fuel o hs
    obtain ⟨hrec, hused⟩ := h.execute fuel o
    exact ⟨_, hused hs, hrec.used⟩

/-- Counts down from two and keeps the zero. -/
def countdown : Program :=
  .ofInstructions [⟨.load, some (.constant 2), none⟩, ⟨.sub, some (.constant 1), some "again"⟩,
    ⟨.jgtz, some (.tag "again"), none⟩, ⟨.store, some (.direct 4), none⟩]

theorem undergo_new_statistics_countdown :
    ∃ m, m = (Machine.new countdown).undergo [.call (.execute 9 {})] ∧ m.steps = 6 ∧
      m.trace.counts.map Prod.fst = ["0 LOAD =2", "1 SUB =1", "2 JGTZ again", "3 STORE 4"] ∧
      m.trace.counts.lookup "1 SUB =1" = some 2 ∧
      ∃ u, (m.execute 9).machine.trace.used = some u ∧ Extent [0, 0, 0, 4] u := by
  have hp : ∀ i ∈ countdown.instructions, i.writable = true := by decide +kernel
  obtain ⟨m, hm⟩ : ∃ m, m = (Machine.new countdown).undergo [.call (.execute 9 {})] := ⟨_, rfl⟩
  obtain ⟨l, hl⟩ : ∃ l, l = Ledger.undergo {} (Machine.new countdown) [.call (.execute 9 {})] := ⟨_, rfl⟩
  have hcompleted : l.completed = [0, 1, 2, 1, 2, 3] := by rw [hl]; decide +kernel
  have hprogram : m.program = countdown := by rw [hm]; decide +kernel
  obtain ⟨-, hsteps, -, -, -, hcount, -, hkeys, hused⟩ := undergo_new_statistics hp {} {} _ (by simp) hm hl
  rw [hcompleted] at hsteps hcount hkeys
  rw [hprogram] at hcount hkeys
  obtain ⟨u, hu, hext⟩ := hused 9 {} (by rw [hm]; decide +kernel)
  have hwritten : (l.apply m (.call (.execute 9 {}))).written = [0, 0, 0, 4] := by
    rw [hm, hl]
    decide +kernel
  rw [hwritten] at hext
  have htexts : [0, 1, 2, 1, 2, 3].eraseDups.map countdown.keyAt =
      ["0 LOAD =2", "1 SUB =1", "2 JGTZ again", "3 STORE 4"] := by decide +kernel
  have hsub : key 1 ⟨.sub, some (.constant 1), some "again"⟩ = "1 SUB =1" := by decide +kernel
  have htwo := hcount 1 ⟨.sub, some (.constant 1), some "again"⟩ (by decide +kernel) (by decide)
  exact ⟨m, hm, hsteps, hkeys.trans htexts, hsub ▸ htwo, u, hu, hext⟩

end Machine
end RandomAccess

import RandomAccess.Proofs.Machine.Lockstep

/-!
# The sum of a tape

The program reads a count and then as many values, one in each round of its loop, and writes their sum.
A round takes one from the count that is left; the loop ends when nothing is left. A negative count never
comes to nothing, and neither does a count that is too large: then the loop reads on until the tape is
exhausted.
-/

namespace RandomAccess.Samples.Sum

open Abstract

def lines : List String :=
  ["# Sum of n numbers, the tape holds n and then n values",
   "        read 1",
   "        load 1",
   "loop:   jzero end",
   "        read 2",
   "        load 3",
   "        add 2",
   "        store 3",
   "        load 1",
   "        sub =1",
   "        store 1",
   "        jump loop",
   "end:    write 3",
   "        halt",
   ""]

def source : String := "\n".intercalate lines

def program : Program := .ofInstructions
  [⟨.read, some (.direct 1), none⟩,
   ⟨.load, some (.direct 1), none⟩,
   ⟨.jzero, some (.tag "end"), some "loop"⟩,
   ⟨.read, some (.direct 2), none⟩,
   ⟨.load, some (.direct 3), none⟩,
   ⟨.add, some (.direct 2), none⟩,
   ⟨.store, some (.direct 3), none⟩,
   ⟨.load, some (.direct 1), none⟩,
   ⟨.sub, some (.constant 1), none⟩,
   ⟨.store, some (.direct 1), none⟩,
   ⟨.jump, some (.tag "loop"), none⟩,
   ⟨.write, some (.direct 3), some "end"⟩,
   ⟨.halt, none, none⟩]

theorem ofSource_source : Program.ofSource source = .ok program := by
  rw [Program.ofSource, source, String.toList_intercalate]
  simp only [lines, List.map_cons, List.map_nil, String.reduceToList]
  decide +kernel

theorem ready : program.Ready := .ofLines ofSource_source

theorem marks_loop : program.Marks "loop" 2 := ⟨_, _, rfl, by decide +kernel, rfl⟩

theorem marks_end : program.Marks "end" 11 := ⟨_, _, rfl, by decide +kernel, rfl⟩

/-! ## The loop -/

/-- Before a round of the loop: `left` values are to be read, and those read add up to `total`. -/
inductive Adding (left total : Int) (unread : List Int) : State → Prop where
  | intro {memory : Nat → Int} (accumulator : memory 0 = left) (count : memory 1 = left)
      (sum : memory 3 = total) : Adding left total unread (.before 2 memory unread [])

variable {left total : Int} {unread : List Int} {a : State}

theorem opening (n : Int) (values : List Int) :
    Leads program (Adding n 0 values) 2 (.start program (n :: values) []) := by
  refine .read (k := 0) (by decide) (.direct 1) (by decide) ?_
  refine .load (by decide) (.direct 1) (.done ⟨?_, ?_, ?_⟩)
  all_goals simp

theorem round {v : Int} (h : Adding left total (v :: unread) a) (hl : left ≠ 0) :
    Leads program (Adding (left - 1) (total + v) unread) 9 a := by
  obtain ⟨hacc, hcount, hsum⟩ := h
  refine .jzeroPast (l := "end") (by decide) (hacc ▸ hl) ?_
  refine .read (by decide) (.direct 2) (by decide) ?_
  refine .load (by decide) (.direct 3) ?_
  refine .add (by decide) (.direct 2) ?_
  refine .store (by decide) (.direct 3) ?_
  refine .load (by decide) (.direct 1) ?_
  refine .sub (by decide) (.constant 1) ?_
  refine .store (by decide) (.direct 1) ?_
  refine .jump (by decide) marks_loop (.done ⟨?_, ?_, ?_⟩)
  all_goals simp [hcount, hsum]

/-- As many rounds as there are values, unless the count is used up before. -/
theorem rounds {values : List Int} (h : Adding left total (values ++ unread) a)
    (hl : left < 0 ∨ values.length ≤ left) :
    Leads program (Adding (left - values.length) (total + values.sum) unread) (9 * values.length) a := by
  induction values generalizing left total a with
  | nil => simpa using Leads.done h
  | cons v values ih =>
      rw [List.length_cons, Nat.cast_succ] at hl
      refine (round h (by omega)).bind fun b hb => ?_
      have hrest := ih hb (by omega)
      rw [List.length_cons, List.sum_cons, Nat.cast_succ]
      rwa [sub_sub, add_comm 1, add_assoc] at hrest

/-- When nothing is left the sum is written. -/
theorem closing (h : Adding 0 total unread a) :
    Leads program (fun b => ∃ memory, b = .over memory unread [total]) 3 a := by
  obtain ⟨hacc, -, hsum⟩ := h
  refine .jzero (by decide) marks_end hacc ?_
  refine .write (by decide) (.direct 3) (by decide) hsum ?_
  exact .halt rfl rfl ⟨_, rfl⟩

/-- The loop goes on to an empty tape if something is left. -/
theorem stumbling (h : Adding left total [] a) (hl : left ≠ 0) :
    Leads program (fun b => ∃ memory, b = (State.before 3 memory [] []).fault .inputExhausted) 2 a := by
  obtain ⟨hacc, -, -⟩ := h
  refine .jzeroPast (l := "end") (by decide) (hacc ▸ hl) ?_
  exact .readExhausted (by decide) (.direct 2) (by decide) ⟨_, rfl⟩

/-! ## Whole runs -/

theorem leads_over (values unread : List Int) :
    Leads program (fun b => ∃ memory, b = .over memory unread [values.sum]) (9 * values.length + 5)
      (.start program (values.length :: (values ++ unread)) []) := by
  have hsteps : 3 + 9 * values.length + 2 = 9 * values.length + 5 := by omega
  rw [← hsteps]
  refine (opening values.length (values ++ unread)).bind fun b hb => ?_
  refine (rounds hb (Or.inr le_rfl)).bind fun c hc => ?_
  rw [sub_self, zero_add] at hc
  exact closing hc

theorem leads_exhausted {n : Int} {values : List Int} (hn : n < 0 ∨ values.length < n) :
    Leads program (fun b => ∃ memory, b = (State.before 3 memory [] []).fault .inputExhausted)
      (9 * values.length + 4) (.start program (n :: values) []) := by
  have hsteps : 2 + 9 * values.length + 2 = 9 * values.length + 4 := by omega
  rw [← hsteps]
  refine (opening n values).bind fun b hb => ?_
  rw [← List.append_nil values] at hb
  exact (rounds hb (by omega)).bind fun c hc => stumbling hc (by omega)

theorem execute_halts (values unread : List Int) {fuel : Nat} (hfuel : 9 * values.length + 5 ≤ fuel) :
    ((Machine.new program (.ofList (values.length :: (values ++ unread)))).execute fuel).Halts
      (9 * values.length + 5) [values.sum] (values.length + 1) := by
  obtain ⟨b, ⟨memory, rfl⟩, hb⟩ := Machine.execute_attains ready (leads_over values unread)
    (by rintro b ⟨memory, rfl⟩; exact ⟨nofun, nofun⟩) hfuel
  exact Execution.Attains.halts (values.length :: values) hb

theorem execute_faults {n : Int} {values : List Int} (hn : n < 0 ∨ values.length < n) {fuel : Nat}
    (hfuel : 9 * values.length + 4 ≤ fuel) :
    ((Machine.new program (.ofList (n :: values))).execute fuel).Faults 3 .inputExhausted
      (9 * values.length + 3) [] := by
  obtain ⟨b, ⟨memory, rfl⟩, hb⟩ := Machine.execute_attains ready (leads_exhausted hn)
    (by rintro b ⟨memory, rfl⟩; exact ⟨nofun, nofun⟩) hfuel
  exact hb.faults

/-- The program adds up as many values as the first one says, in nine steps each, and leaves the rest of
the tape unread. On a tape that holds just these values the number of steps is linear in its length. If
the first value is negative or larger than the number of values that follow, the program reads them all
and faults when it wants one more. -/
theorem sum_correct : ∃ p, Program.ofSource source = .ok p ∧ ∀ (n : Int) (values : List Int) (fuel : Nat),
    (0 ≤ n ∧ n ≤ values.length → 9 * n.toNat + 5 ≤ fuel →
      ((Machine.new p (.ofList (n :: values))).execute fuel).Halts (9 * n.toNat + 5)
        [(values.take n.toNat).sum] (n.toNat + 1) ∧
      (n = values.length → p.figure fuel {} "commands_executed" (n :: values) =
        .ok (.number (9 * (n :: values).length - 4)))) ∧
    (n < 0 ∨ values.length < n → 9 * values.length + 4 ≤ fuel →
      ((Machine.new p (.ofList (n :: values))).execute fuel).Faults 3 .inputExhausted
        (9 * values.length + 3) []) := by
  refine ⟨program, ofSource_source, fun n values fuel => ⟨?_, fun hn hfuel => execute_faults hn hfuel⟩⟩
  rintro ⟨hn, hle⟩ hfuel
  obtain ⟨k, rfl⟩ := Int.eq_ofNat_of_zero_le hn
  have hk : (values.take k).length = k := List.length_take_of_le (by omega)
  have hfuel' : 9 * (values.take k).length + 5 ≤ fuel := by rwa [hk]
  have hhalts := execute_halts (values.take k) (values.drop k) hfuel'
  rw [List.take_append_drop, hk] at hhalts
  refine ⟨hhalts, fun hall => ?_⟩
  rw [Program.figure_of_halts hhalts, List.length_cons, ← Int.ofNat.inj hall]
  rfl

/-- Three of four values; three of three; and a count below zero. -/
theorem sum_correct_three : ∃ p, Program.ofSource source = .ok p ∧
    ((Machine.new p (.ofList [3, 5, -2, 9, 7])).execute 32).Halts 32 [12] 4 ∧
    p.figure 32 {} "commands_executed" [3, 5, -2, 9] = .ok (.number 32) ∧
    ((Machine.new p (.ofList [-1, 8])).execute 13).Faults 3 .inputExhausted 12 [] := by
  obtain ⟨p, hp, h⟩ := sum_correct
  exact ⟨p, hp, ((h 3 [5, -2, 9, 7] 32).1 (by decide) (by decide)).1,
    ((h 3 [5, -2, 9] 32).1 (by decide) (by decide)).2 rfl, (h (-1) [8] 13).2 (by decide) (by decide)⟩

end RandomAccess.Samples.Sum

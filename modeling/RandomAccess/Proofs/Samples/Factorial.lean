import RandomAccess.Proofs.Machine.Lockstep

/-!
# The factorial of a value

The program reads one value and writes its factorial. A round of the loop multiplies the result by the
factor that is left and takes one from the factor; the loop ends when the factor is no longer positive, so
a negative value counts as zero. Registers hold integers of any size, and so does the output tape.
-/

namespace RandomAccess.Samples.Factorial

open Abstract

def lines : List String :=
  ["# n! for the single value on the tape",
   "        read 1",
   "        load =1",
   "        store 2         ; R2 holds the result",
   "loop:   load 1",
   "        jgtz body",
   "        write 2",
   "        halt",
   "body:   mul 2",
   "        store 2",
   "        load 1",
   "        sub =1",
   "        store 1",
   "        jump loop",
   ""]

def source : String := "\n".intercalate lines

def program : Program := .ofInstructions
  [⟨.read, some (.direct 1), none⟩,
   ⟨.load, some (.constant 1), none⟩,
   ⟨.store, some (.direct 2), none⟩,
   ⟨.load, some (.direct 1), some "loop"⟩,
   ⟨.jgtz, some (.tag "body"), none⟩,
   ⟨.write, some (.direct 2), none⟩,
   ⟨.halt, none, none⟩,
   ⟨.mul, some (.direct 2), some "body"⟩,
   ⟨.store, some (.direct 2), none⟩,
   ⟨.load, some (.direct 1), none⟩,
   ⟨.sub, some (.constant 1), none⟩,
   ⟨.store, some (.direct 1), none⟩,
   ⟨.jump, some (.tag "loop"), none⟩]

theorem ofSource_source : Program.ofSource source = .ok program := by
  rw [Program.ofSource, source, String.toList_intercalate]
  simp only [lines, List.map_cons, List.map_nil, String.reduceToList]
  decide +kernel

theorem ready : program.Ready := .ofLines ofSource_source

theorem marks_loop : program.Marks "loop" 3 := ⟨_, _, rfl, by decide +kernel, rfl⟩

theorem marks_body : program.Marks "body" 7 := ⟨_, _, rfl, by decide +kernel, rfl⟩

/-! ## The loop -/

/-- Before a round of the loop: the result is still to be multiplied by `factor` and all that is below. -/
inductive Multiplying (factor result : Int) (unread : List Int) : State → Prop where
  | intro {memory : Nat → Int} (count : memory 1 = factor) (product : memory 2 = result) :
      Multiplying factor result unread (.before 3 memory unread [])

variable {factor result : Int} {unread : List Int} {a : State}

theorem opening (n : Int) (unread : List Int) :
    Leads program (Multiplying n 1 unread) 3 (.start program (n :: unread) []) := by
  refine .read (k := 0) (by decide) (.direct 1) (by decide) ?_
  refine .load (by decide) (.constant 1) ?_
  refine .store (by decide) (.direct 2) (.done ⟨?_, ?_⟩)
  all_goals simp

theorem round (h : Multiplying factor result unread a) (hf : 0 < factor) :
    Leads program (Multiplying (factor - 1) (factor * result) unread) 8 a := by
  obtain ⟨hcount, hproduct⟩ := h
  refine .load (by decide) (.direct 1) ?_
  refine .jgtz (by decide) marks_body (by simpa [hcount] using hf) ?_
  refine .mul (by decide) (.direct 2) ?_
  refine .store (by decide) (.direct 2) ?_
  refine .load (by decide) (.direct 1) ?_
  refine .sub (by decide) (.constant 1) ?_
  refine .store (by decide) (.direct 1) ?_
  refine .jump (by decide) marks_loop (.done ⟨?_, ?_⟩)
  all_goals simp [hcount, hproduct]

/-- As many rounds as the factor says. -/
theorem rounds {n : Nat} (h : Multiplying n result unread a) :
    Leads program (Multiplying 0 (n.factorial * result) unread) (8 * n) a := by
  induction n generalizing result a with
  | zero => simpa using Leads.done h
  | succ n ih =>
      refine (round h (by omega)).bind fun b hb => ?_
      rw [Nat.cast_succ, add_sub_cancel_right] at hb
      have hrest := ih hb
      rwa [← mul_assoc, mul_comm (n.factorial : Int), ← Nat.cast_succ, ← Nat.cast_mul,
        ← Nat.factorial_succ] at hrest

/-- When no factor is left the result is written. -/
theorem closing (h : Multiplying factor result unread a) (hf : factor ≤ 0) :
    Leads program (fun b => ∃ memory, b = .over memory unread [result]) 4 a := by
  obtain ⟨hcount, hproduct⟩ := h
  refine .load (by decide) (.direct 1) ?_
  refine .jgtzPast (l := "body") (by decide) (by simpa [hcount] using hf) ?_
  refine .write (by decide) (.direct 2) (by decide) (by simpa using hproduct) ?_
  exact .halt rfl rfl ⟨_, rfl⟩

/-! ## Whole runs -/

theorem leads_over (n : Int) (unread : List Int) :
    Leads program (fun b => ∃ memory, b = .over memory unread [(n.toNat.factorial : Int)])
      (8 * n.toNat + 7) (.start program (n :: unread) []) := by
  have hsteps : 4 + 8 * n.toNat + 3 = 8 * n.toNat + 7 := by omega
  rw [← hsteps]
  refine (opening n unread).bind fun b hb => ?_
  rcases le_total n 0 with hn | hn
  · -- a value below zero does not enter the loop
    rw [Int.toNat_of_nonpos hn]
    exact closing hb hn
  · rw [← Int.toNat_of_nonneg hn] at hb
    refine (rounds hb).bind fun c hc => ?_
    rw [mul_one] at hc
    exact closing hc le_rfl

/-- The program writes the factorial of the first value, exactly and in eight steps for each factor; a
negative value counts as zero. The rest of the tape stays unread. -/
theorem factorial_correct : ∃ p, Program.ofSource source = .ok p ∧
    ∀ (n : Int) (rest : List Int) (fuel : Nat), 8 * n.toNat + 7 ≤ fuel →
      ((Machine.new p (.ofList (n :: rest))).execute fuel).Halts (8 * n.toNat + 7)
        [(n.toNat.factorial : Int)] 1 := by
  refine ⟨program, ofSource_source, fun n rest fuel hfuel => ?_⟩
  obtain ⟨b, ⟨memory, rfl⟩, hb⟩ := Machine.execute_attains ready (leads_over n rest)
    (by rintro b ⟨memory, rfl⟩; exact ⟨nofun, nofun⟩) hfuel
  exact Execution.Attains.halts [n] hb

/-- A factorial beyond 64 bits, and a value below zero. -/
theorem factorial_correct_twentyOne : ∃ p, Program.ofSource source = .ok p ∧
    ((Machine.new p (.ofList [21])).execute 175).Halts 175 [51090942171709440000] 1 ∧
    ((Machine.new p (.ofList [-4, 8])).execute 7).Halts 7 [1] 1 := by
  obtain ⟨p, hp, h⟩ := factorial_correct
  exact ⟨p, hp, h 21 [] 175 (by decide), h (-4) [8] 7 (by decide)⟩

end RandomAccess.Samples.Factorial

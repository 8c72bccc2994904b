import RandomAccess.Proofs.Machine.Lockstep

/-!
# A tape in reverse order

The program reads a count and then as many values, which it stores from register 10 on. Then it goes back
over the registers and writes what they hold. As long as it reads, the second register points at the next
free one and the third holds the count that is left; a count that is negative or too large does not come
to nothing before the tape is exhausted.
-/

namespace RandomAccess.Samples.Reverse

open Abstract

def lines : List String :=
  ["# Writes n values in reverse order, values are kept from register 10 on",
   "        read 1",
   "        load =10",
   "        store 2         # R2 points at the next free register",
   "        load 1",
   "        store 3         # R3 counts values left to read",
   "fill:   load 3",
   "        jzero dump",
   "        read *2",
   "        load 2",
   "        add =1",
   "        store 2",
   "        load 3",
   "        sub =1",
   "        store 3",
   "        jump fill",
   "dump:",
   "        load 2",
   "        sub =10",
   "        jzero end",
   "        load 2",
   "        sub =1",
   "        store 2",
   "        write *2",
   "        jump dump",
   "end:    halt",
   ""]

def source : String := "\n".intercalate lines

def program : Program := .ofInstructions
  [⟨.read, some (.direct 1), none⟩,
   ⟨.load, some (.constant 10), none⟩,
   ⟨.store, some (.direct 2), none⟩,
   ⟨.load, some (.direct 1), none⟩,
   ⟨.store, some (.direct 3), none⟩,
   ⟨.load, some (.direct 3), some "fill"⟩,
   ⟨.jzero, some (.tag "dump"), none⟩,
   ⟨.read, some (.indirect 2), none⟩,
   ⟨.load, some (.direct 2), none⟩,
   ⟨.add, some (.constant 1), none⟩,
   ⟨.store, some (.direct 2), none⟩,
   ⟨.load, some (.direct 3), none⟩,
   ⟨.sub, some (.constant 1), none⟩,
   ⟨.store, some (.direct 3), none⟩,
   ⟨.jump, some (.tag "fill"), none⟩,
   ⟨.load, some (.direct 2), some "dump"⟩,
   ⟨.sub, some (.constant 10), none⟩,
   ⟨.jzero, some (.tag "end"), none⟩,
   ⟨.load, some (.direct 2), none⟩,
   ⟨.sub, some (.constant 1), none⟩,
   ⟨.store, some (.direct 2), none⟩,
   ⟨.write, some (.indirect 2), none⟩,
   ⟨.jump, some (.tag "dump"), none⟩,
   ⟨.halt, none, some "end"⟩]

theorem ofSource_source : Program.ofSource source = .ok program := by
  rw [Program.ofSource, source, String.toList_intercalate]
  simp only [lines, List.map_cons, List.map_nil, String.reduceToList]
  decide +kernel

theorem ready : program.Ready := .ofLines ofSource_source

theorem marks_fill : program.Marks "fill" 5 := ⟨_, _, rfl, by decide +kernel, rfl⟩

theorem marks_dump : program.Marks "dump" 15 := ⟨_, _, rfl, by decide +kernel, rfl⟩

theorem marks_end : program.Marks "end" 23 := ⟨_, _, rfl, by decide +kernel, rfl⟩

/-! ## The registers from 10 on -/

/-- The registers from 10 on hold the values in order. -/
def Keeps (memory : Nat → Int) (stored : List Int) : Prop :=
  ∀ j v, stored[j]? = some v → memory (10 + j) = v

variable {memory : Nat → Int} {stored todo done unread : List Int} {left v : Int} {a : State}

/-- The registers below 10 are for other uses. -/
@[simp] theorem keeps_update {i : Nat} (hi : i < 10) :
    Keeps (Function.update memory i v) stored ↔ Keeps memory stored := by
  have hne (j : Nat) : 10 + j ≠ i := by omega
  simp only [Keeps, Function.update_of_ne (hne _)]

theorem Keeps.push (h : Keeps memory stored) (v : Int) :
    Keeps (Function.update memory (10 + stored.length) v) (stored ++ [v]) := by
  intro j w hw
  rcases Nat.lt_trichotomy j stored.length with hj | rfl | hj
  · rw [Function.update_of_ne (by omega)]
    exact h j w (by rwa [List.getElem?_append_left hj] at hw)
  · rw [Function.update_self]
    simpa using hw
  · rw [List.getElem?_eq_none (by simp; omega)] at hw
    cases hw

theorem keeps_last (todo : List Int) (v : Int) (done : List Int) (h : Keeps memory (todo ++ v :: done)) :
    memory (10 + todo.length) = v :=
  h todo.length v (by simp)

/-! ## Reading -/

/-- Before a value is read: `left` values are to be read after those that are stored. -/
inductive Filling (left : Int) (stored unread : List Int) : State → Prop where
  | intro {memory : Nat → Int} (free : memory 2 = (10 + stored.length : Nat)) (count : memory 3 = left)
      (keeps : Keeps memory stored) : Filling left stored unread (.before 5 memory unread [])

theorem opening (n : Int) (values : List Int) :
    Leads program (Filling n [] values) 5 (.start program (n :: values) []) := by
  refine .read (k := 0) (by decide) (.direct 1) (by decide) ?_
  refine .load (by decide) (.constant 10) ?_
  refine .store (by decide) (.direct 2) ?_
  refine .load (by decide) (.direct 1) ?_
  refine .store (by decide) (.direct 3) (.done ⟨?_, ?_, nofun⟩)
  all_goals simp

theorem fill (h : Filling left stored (v :: unread) a) (hl : left ≠ 0) :
    Leads program (Filling (left - 1) (stored ++ [v]) unread) 10 a := by
  obtain ⟨hfree, hcount, hkeeps⟩ := h
  have h₂ : 2 ≠ 10 + stored.length := by omega
  have h₃ : 3 ≠ 10 + stored.length := by omega
  refine .load (by decide) (.direct 3) ?_
  refine .jzeroPast (l := "dump") (by decide) (by simpa [hcount] using hl) ?_
  refine .read (i := 10 + stored.length) (by decide) (.indirect_eq 2 (by simpa using hfree)) (by omega) ?_
  refine .load (by decide) (.direct 2) ?_
  refine .add (by decide) (.constant 1) ?_
  refine .store (by decide) (.direct 2) ?_
  refine .load (by decide) (.direct 3) ?_
  refine .sub (by decide) (.constant 1) ?_
  refine .store (by decide) (.direct 3) ?_
  refine .jump (by decide) marks_fill (.done ⟨?_, ?_, ?_⟩)
  · simp [hfree, h₂, add_assoc]
  · simp [hcount, h₃]
  · simp (disch := decide) only [keeps_update]
    exact .push ((keeps_update (by decide)).mpr hkeeps) v

/-- As many values as there are, unless the count is used up before. -/
theorem fills {values : List Int} (h : Filling left stored (values ++ unread) a)
    (hl : left < 0 ∨ values.length ≤ left) :
    Leads program (Filling (left - values.length) (stored ++ values) unread) (10 * values.length) a := by
  induction values generalizing left stored a with
  | nil => simpa using Leads.done h
  | cons v values ih =>
      rw [List.length_cons, Nat.cast_succ] at hl
      refine (fill h (by omega)).bind fun b hb => ?_
      have hrest := ih hb (by omega)
      rw [List.length_cons, Nat.cast_succ]
      rwa [sub_sub, add_comm 1, List.append_assoc] at hrest

/-- The loop goes on to an empty tape if something is left. -/
theorem stumbling (h : Filling left stored [] a) (hl : left ≠ 0) :
    Leads program (fun b => ∃ memory, b = (State.before 7 memory [] []).fault .inputExhausted) 3 a := by
  obtain ⟨hfree, hcount, -⟩ := h
  refine .load (by decide) (.direct 3) ?_
  refine .jzeroPast (l := "dump") (by decide) (by simpa [hcount] using hl) ?_
  exact .readExhausted (i := 10 + stored.length) (by decide) (.indirect_eq 2 (by simpa using hfree))
    (by omega) ⟨_, rfl⟩

/-! ## Writing -/

/-- Before a value is written: those of `done` have been, in reverse order, and those of `todo` have
not. -/
inductive Dumping (todo done unread : List Int) : State → Prop where
  | intro {memory : Nat → Int} (last : memory 2 = (10 + todo.length : Nat))
      (keeps : Keeps memory (todo ++ done)) :
      Dumping todo done unread (.before 15 memory unread done.reverse)

/-- When nothing is left to be read, all that is stored is to be written. -/
theorem turning (h : Filling 0 stored unread a) : Leads program (Dumping stored [] unread) 2 a := by
  obtain ⟨hfree, hcount, hkeeps⟩ := h
  refine .load (by decide) (.direct 3) ?_
  refine .jzero (by decide) marks_dump (by simpa using hcount) (.done ⟨?_, ?_⟩)
  · simpa using hfree
  · simpa using hkeeps

theorem dump (h : Dumping (todo ++ [v]) done unread a) :
    Leads program (Dumping todo (v :: done) unread) 8 a := by
  obtain ⟨hlast, hkeeps⟩ := h
  rw [List.append_assoc] at hkeeps
  rw [List.length_append, List.length_singleton, ← Nat.add_assoc, Nat.cast_succ] at hlast
  refine .load (by decide) (.direct 2) ?_
  refine .sub (by decide) (.constant 10) ?_
  refine .jzeroPast (l := "end") (by decide) (by simp [hlast]; omega) ?_
  refine .load (by decide) (.direct 2) ?_
  refine .sub (by decide) (.constant 1) ?_
  refine .store (by decide) (.direct 2) ?_
  refine .write (i := 10 + todo.length) (by decide) (.indirect_eq 2 (by simp [hlast])) (by omega)
    (keeps_last todo v done (by simpa using hkeeps)) ?_
  rw [← List.reverse_cons]
  refine .jump (by decide) marks_dump (.done ⟨?_, ?_⟩)
  · simp [hlast]
  · simpa using hkeeps

/-- All that is stored is written, the last value first. -/
theorem dumps (h : Dumping todo done unread a) :
    Leads program (Dumping [] (todo ++ done) unread) (8 * todo.length) a := by
  induction todo using List.reverseRecOn generalizing done a with
  | nil => exact .done h
  | append_singleton todo v ih =>
      refine (List.length_append ▸ (dump h).bind fun b hb => ?_)
      rw [List.append_assoc]
      exact ih hb

/-- The run has come to its end, and the registers still hold the values. -/
inductive Reversed (stored unread : List Int) : State → Prop where
  | intro {memory : Nat → Int} (keeps : Keeps memory stored) :
      Reversed stored unread (.over memory unread stored.reverse)

theorem closing (h : Dumping [] stored unread a) : Leads program (Reversed stored unread) 4 a := by
  obtain ⟨hlast, hkeeps⟩ := h
  refine .load (by decide) (.direct 2) ?_
  refine .sub (by decide) (.constant 10) ?_
  refine .jzero (by decide) marks_end (by simp [hlast]) ?_
  exact .halt rfl rfl ⟨by simpa using hkeeps⟩

/-! ## Whole runs -/

theorem leads_reversed (values unread : List Int) :
    Leads program (Reversed values unread) (18 * values.length + 11)
      (.start program (values.length :: (values ++ unread)) []) := by
  have hsteps : 4 + 8 * values.length + 2 + 10 * values.length + 5 = 18 * values.length + 11 := by omega
  rw [← hsteps]
  refine (opening values.length (values ++ unread)).bind fun b hb => ?_
  refine (fills hb (Or.inr le_rfl)).bind fun c hc => ?_
  rw [sub_self, List.nil_append] at hc
  refine (turning hc).bind fun d hd => ?_
  refine (dumps hd).bind fun e he => ?_
  rw [List.append_nil] at he
  exact closing he

theorem leads_exhausted {n : Int} {values : List Int} (hn : n < 0 ∨ values.length < n) :
    Leads program (fun b => ∃ memory, b = (State.before 7 memory [] []).fault .inputExhausted)
      (10 * values.length + 8) (.start program (n :: values) []) := by
  have hsteps : 3 + 10 * values.length + 5 = 10 * values.length + 8 := by omega
  rw [← hsteps]
  refine (opening n values).bind fun b hb => ?_
  rw [← List.append_nil values] at hb
  exact (fills hb (by omega)).bind fun c hc => stumbling hc (by omega)

theorem execute_halts (values unread : List Int) {fuel : Nat} (hfuel : 18 * values.length + 11 ≤ fuel) :
    ((Machine.new program (.ofList (values.length :: (values ++ unread)))).execute fuel).Halts
      (18 * values.length + 11) values.reverse (values.length + 1) ∧
    ∀ j v, values[j]? = some v →
      ((Machine.new program (.ofList (values.length :: (values ++ unread)))).execute
        fuel).machine.registers.get (10 + j : Nat) = .ok v := by
  obtain ⟨b, ⟨hkeeps⟩, hb⟩ := Machine.execute_attains ready (leads_reversed values unread)
    (by rintro b ⟨-⟩; exact ⟨nofun, nofun⟩) hfuel
  refine ⟨Execution.Attains.halts (values.length :: values) hb, fun j v hj => ?_⟩
  rw [hb.represents.memory]
  exact congrArg _ (hkeeps j v hj)

theorem execute_faults {n : Int} {values : List Int} (hn : n < 0 ∨ values.length < n) {fuel : Nat}
    (hfuel : 10 * values.length + 8 ≤ fuel) :
    ((Machine.new program (.ofList (n :: values))).execute fuel).Faults 7 .inputExhausted
      (10 * values.length + 7) [] := by
  obtain ⟨b, ⟨memory, rfl⟩, hb⟩ := Machine.execute_attains ready (leads_exhausted hn)
    (by rintro b ⟨memory, rfl⟩; exact ⟨nofun, nofun⟩) hfuel
  exact hb.faults

/-- The program writes as many values as the first one says in reverse order, leaves the rest of the tape
unread and the values in the registers from 10 on. If the first value is negative or larger than the
number of values that follow, the program reads them all, writes nothing and faults when it wants one
more. -/
theorem reverse_correct : ∃ p, Program.ofSource source = .ok p ∧
    ∀ (n : Int) (values : List Int) (fuel : Nat),
    (0 ≤ n ∧ n ≤ values.length → 18 * n.toNat + 11 ≤ fuel →
      ((Machine.new p (.ofList (n :: values))).execute fuel).Halts (18 * n.toNat + 11)
        (values.take n.toNat).reverse (n.toNat + 1) ∧
      ∀ j v, (values.take n.toNat)[j]? = some v →
        ((Machine.new p (.ofList (n :: values))).execute fuel).machine.registers.get (10 + j : Nat) =
          .ok v) ∧
    (n < 0 ∨ values.length < n → 10 * values.length + 8 ≤ fuel →
      ((Machine.new p (.ofList (n :: values))).execute fuel).Faults 7 .inputExhausted
        (10 * values.length + 7) []) := by
  refine ⟨program, ofSource_source, fun n values fuel => ⟨?_, fun hn hfuel => execute_faults hn hfuel⟩⟩
  rintro ⟨hn, hle⟩ hfuel
  obtain ⟨k, rfl⟩ := Int.eq_ofNat_of_zero_le hn
  have hk : (values.take k).length = k := List.length_take_of_le (by omega)
  have hfuel' : 18 * (values.take k).length + 11 ≤ fuel := by rwa [hk]
  have hhalts := execute_halts (values.take k) (values.drop k) hfuel'
  rwa [List.take_append_drop, hk] at hhalts

/-- Two of three values, and a count that is not to be had. -/
theorem reverse_correct_two : ∃ p, Program.ofSource source = .ok p ∧
    ((Machine.new p (.ofList [2, 5, -6, 7])).execute 47).Halts 47 [-6, 5] 3 ∧
    ((Machine.new p (.ofList [2, 5, -6, 7])).execute 47).machine.registers.get 11 = .ok (-6) ∧
    ((Machine.new p (.ofList [4, 8, 9])).execute 28).Faults 7 .inputExhausted 27 [] := by
  obtain ⟨p, hp, h⟩ := reverse_correct
  have htwo := (h 2 [5, -6, 7] 47).1 (by decide) (by decide)
  exact ⟨p, hp, htwo.1, htwo.2 1 (-6) rfl, (h 4 [8, 9] 28).2 (by decide) (by decide)⟩

end RandomAccess.Samples.Reverse

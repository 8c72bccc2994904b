import Mathlib.Data.List.Basic
import RandomAccess.Program.Load
import RandomAccess.Proofs.Except

/-!
# Programs that the loaders build

The label table of a loaded program lists the labels of its instructions, in small letters and in
program order, and no label comes twice. So the table finds the one instruction that carries a label.
-/

namespace RandomAccess

/-! ## The labels of a list of instructions -/

/-- The labels in small letters with the indices of their instructions, which start at `k`. -/
def Instruction.marks (k : Nat) : List Instruction → List (String × Nat)
  | [] => []
  | i :: r => (i.mark.map fun l => (Text.lower l, k)).toList ++ marks (k + 1) r

namespace Instruction

theorem marks_append (k : Nat) (is js : List Instruction) :
    marks k (is ++ js) = marks k is ++ marks (k + is.length) js := by
  induction is generalizing k with
  | nil => rfl
  | cons i is ih =>
      simp only [List.cons_append, marks, ih, List.append_assoc, List.length_cons]
      rw [Nat.add_right_comm, Nat.add_assoc]

theorem mem_marks {k j : Nat} {l : String} {is : List Instruction} :
    (l, j) ∈ marks k is ↔
      ∃ n i m, j = k + n ∧ is[n]? = some i ∧ i.mark = some m ∧ Text.lower m = l := by
  induction is generalizing k with
  | nil => simp [marks]
  | cons i is ih =>
      simp only [marks, List.mem_append, Option.mem_toList, Option.map_eq_some_iff, Prod.mk.injEq, ih]
      constructor
      · rintro (⟨m, hm, hl, rfl⟩ | ⟨n, i', m, rfl, hi, hm, hl⟩)
        · exact ⟨0, i, m, rfl, rfl, hm, hl⟩
        · exact ⟨n + 1, i', m, by omega, by simpa using hi, hm, hl⟩
      · rintro ⟨n, i', m, rfl, hi, hm, hl⟩
        cases n with
        | zero =>
            simp only [List.getElem?_cons_zero, Option.some.injEq] at hi
            subst hi
            exact Or.inl ⟨m, hm, hl, rfl⟩
        | succ n =>
            exact Or.inr ⟨n, i', m, by omega, by simpa using hi, hm, hl⟩

end Instruction

/-- A key that comes once is looked up to its own value. -/
theorem lookup_eq_some_iff_mem {l : List (String × Nat)} {k : String} {v : Nat}
    (hn : (l.map Prod.fst).Nodup) : l.lookup k = some v ↔ (k, v) ∈ l := by
  induction l with
  | nil => simp
  | cons e l ih =>
      obtain ⟨k', v'⟩ := e
      rw [List.map_cons, List.nodup_cons] at hn
      rw [List.lookup_cons, List.mem_cons, Prod.mk.injEq]
      by_cases hk : k = k'
      · subst hk
        have hv : (k, v) ∉ l := fun h => hn.1 (List.mem_map.mpr ⟨(k, v), h, rfl⟩)
        simp [hv, eq_comm]
      · have hb : (k == k') = false := by simpa using hk
        simp only [hb, hk, false_and, false_or]
        exact ih hn.2

theorem lookup_isSome_iff_mem {l : List (String × Nat)} {k : String} :
    (l.lookup k).isSome = true ↔ k ∈ l.map Prod.fst := by
  rw [List.lookup_isSome_iff, List.mem_map]
  simp only [beq_iff_eq]
  constructor
  · rintro ⟨e, he, hk⟩; exact ⟨e, he, hk.symm⟩
  · rintro ⟨e, he, hk⟩; exact ⟨e, he, hk.symm⟩

/-! ## Well-formed programs -/

namespace Program

structure WellFormed (p : Program) : Prop where
  /-- Only `halt` does without an operand. -/
  operand : ∀ i ∈ p.instructions.toList, i.opcode ≠ .halt → i.operand ≠ none
  labels : p.labels = Instruction.marks 0 p.instructions.toList
  distinct : (p.labels.map Prod.fst).Nodup

/-- When an instruction can be added, and what the program is then. -/
theorem push_eq_ok_iff {p q : Program} {i : Instruction} :
    p.push i = .ok q ↔ (i.opcode ≠ .halt → i.operand ≠ none) ∧
      (∀ l, i.mark = some l → Text.lower l ∉ p.labels.map Prod.fst) ∧
      q = ⟨p.instructions.push i, p.labels ++ Instruction.marks p.size [i]⟩ := by
  unfold push
  by_cases ho : i.opcode ≠ .halt ∧ i.operand = none
  · simp [ho]
  · have ho' : i.opcode ≠ .halt → i.operand ≠ none := fun h₁ h₂ => ho ⟨h₁, h₂⟩
    rw [if_neg ho]
    cases hm : i.mark with
    | none =>
        simp only [Instruction.marks, hm, Option.map_none, Option.toList_none, List.append_nil,
          Except.ok.injEq]
        constructor
        · rintro rfl; exact ⟨ho', nofun, rfl⟩
        · rintro ⟨-, -, rfl⟩; rfl
    | some l =>
        simp only [Instruction.marks, hm, Option.map_some, Option.toList_some, List.append_nil,
          lookup_isSome_iff_mem]
        split
        · rename_i h
          constructor
          · intro h'; cases h'
          · rintro ⟨-, h', -⟩; exact absurd h (h' l rfl)
        · rename_i h
          simp only [Except.ok.injEq]
          constructor
          · rintro rfl; exact ⟨ho', by rintro _ ⟨⟩; exact h, rfl⟩
          · rintro ⟨-, -, rfl⟩; rfl

theorem WellFormed.empty : WellFormed {} where
  operand := by simp
  labels := rfl
  distinct := List.nodup_nil

theorem WellFormed.push {p q : Program} {i : Instruction} (hp : p.WellFormed)
    (h : p.push i = .ok q) : q.WellFormed := by
  obtain ⟨ho, hd, rfl⟩ := push_eq_ok_iff.mp h
  refine ⟨?_, ?_, ?_⟩
  · intro j hj
    rw [Array.toList_push, List.mem_append, List.mem_singleton] at hj
    rcases hj with hj | rfl
    · exact hp.operand j hj
    · exact ho
  · rw [Array.toList_push, Instruction.marks_append, ← hp.labels]
    simp [size]
  · rw [List.map_append, List.nodup_append]
    refine ⟨hp.distinct, ?_, ?_⟩
    · cases hm : i.mark <;> simp [Instruction.marks, hm]
    · intro a ha b hb
      simp only [Instruction.marks, List.append_nil, List.mem_map, Option.mem_toList,
        Option.map_eq_some_iff] at hb
      obtain ⟨_, ⟨l, hl, rfl⟩, rfl⟩ := hb
      rintro rfl
      exact hd l hl ha

theorem WellFormed.ofRecords {records : List (Int × Instruction)} {p : Program}
    (h : ofRecords records = .ok p) : p.WellFormed := by
  refine foldlM_invariant (P := WellFormed) ?_ .empty h
  rintro q ⟨index, i⟩ q' hq h'
  dsimp only at h'
  split at h'
  · cases h'
  · exact hq.push h'

/-! ## Programs from instructions -/

/-- The program of a list of instructions. -/
def ofInstructions (is : List Instruction) : Program := ⟨is.toArray, Instruction.marks 0 is⟩

theorem push_ofInstructions {is : List Instruction} {i : Instruction}
    (ho : i.opcode ≠ .halt → i.operand ≠ none)
    (hl : ∀ l, i.mark = some l → Text.lower l ∉ (Instruction.marks 0 is).map Prod.fst) :
    (ofInstructions is).push i = .ok (ofInstructions (is ++ [i])) := by
  refine push_eq_ok_iff.mpr ⟨ho, hl, ?_⟩
  simp only [ofInstructions, Instruction.marks_append, size]
  simp

/-! ## Source lines -/

theorem Draft.instruction_wellFormed {d d' : Draft} {n : Nat} {i : Instruction}
    (hd : d.program.WellFormed) (h : d.instruction n i = .ok d') : d'.program.WellFormed := by
  unfold Draft.instruction at h
  split at h
  · cases h
  · obtain ⟨p, hp, ⟨⟩⟩ := bind_eq_ok_iff.mp h
    exact hd.push hp
  · obtain ⟨p, hp, ⟨⟩⟩ := bind_eq_ok_iff.mp h
    exact hd.push hp

theorem Draft.label_wellFormed {d d' : Draft} {n : Nat} {l : String}
    (hd : d.program.WellFormed) (h : d.label n l = .ok d') : d'.program.WellFormed := by
  unfold Draft.label at h
  split at h
  · cases h
  · cases h; exact hd

theorem Draft.line_wellFormed {d d' : Draft} {n : Nat} {s : List Char}
    (hd : d.program.WellFormed) (h : d.line n s = .ok d') : d'.program.WellFormed := by
  unfold Draft.line at h
  split at h
  · cases h; exact hd
  · split at h
    · cases h
    · cases h
    · cases h; exact hd
    · exact Draft.label_wellFormed hd h
    · exact Draft.instruction_wellFormed hd h

theorem Draft.finish_eq_ok {d : Draft} {p : Program} (h : d.finish = .ok p) :
    d.waiting = none ∧ p = d.program ∧ p.undefinedTag? = none := by
  unfold Draft.finish at h
  split at h
  · cases h
  · rename_i hw
    split at h
    · cases h
    · rename_i hu
      cases h
      exact ⟨hw, rfl, hu⟩

theorem WellFormed.ofLines {lines : List (List Char)} {p : Program}
    (h : ofLines lines = .ok p) : p.WellFormed := by
  obtain ⟨d, hd, hf⟩ := bind_eq_ok_iff.mp h
  obtain ⟨-, rfl, -⟩ := Draft.finish_eq_ok hf
  exact foldlM_invariant (P := fun d : Draft => d.program.WellFormed)
    (fun _ _ _ h₁ h₂ => Draft.line_wellFormed h₁ h₂) .empty hd

/-- A program that one of the two loaders has built. -/
def Loaded (p : Program) : Prop :=
  (∃ lines, ofLines lines = .ok p) ∨ ∃ records, ofRecords records = .ok p

theorem Loaded.wellFormed {p : Program} (h : p.Loaded) : p.WellFormed := by
  rcases h with ⟨_, h⟩ | ⟨_, h⟩
  · exact .ofLines h
  · exact .ofRecords h

/-- A loaded program whose instructions can all be written as text. -/
structure Ready (p : Program) : Prop where
  loaded : p.Loaded
  writable : ∀ i ∈ p.instructions, i.writable = true

/-! ## Labels -/

/-- The instruction at index `k` carries the label `l`, whatever the case of its letters. -/
def Marks (p : Program) (l : String) (k : Nat) : Prop :=
  ∃ i m, p.instructions[k]? = some i ∧ i.mark = some m ∧ Text.lower m = Text.lower l

theorem Marks.lt_size {p : Program} {l : String} {k : Nat} (h : p.Marks l k) : k < p.size := by
  obtain ⟨i, _, hi, _⟩ := h
  exact (Array.getElem?_eq_some_iff.mp hi).1

theorem WellFormed.lookup_eq_some_iff {p : Program} (hp : p.WellFormed) {l : String} {k : Nat} :
    p.labels.lookup (Text.lower l) = some k ↔ p.Marks l k := by
  rw [lookup_eq_some_iff_mem hp.distinct, hp.labels, Instruction.mem_marks]
  constructor
  · rintro ⟨n, i, m, rfl, hi, hm, hl⟩
    exact ⟨i, m, by simpa using hi, hm, hl⟩
  · rintro ⟨i, m, hi, hm, hl⟩
    exact ⟨k, i, m, by omega, by simpa using hi, hm, hl⟩

theorem WellFormed.target_eq_ok {p : Program} (hp : p.WellFormed) {l : String} {k : Nat}
    (h : p.Marks l k) : p.target l = .ok k := by
  simp only [target, hp.lookup_eq_some_iff.mpr h]

theorem WellFormed.target_eq_error {p : Program} (hp : p.WellFormed) {l : String}
    (h : ∀ k, ¬ p.Marks l k) : p.target l = .error (.unknownLabel l) := by
  have hn : p.labels.lookup (Text.lower l) = none := by
    rw [Option.eq_none_iff_forall_ne_some]
    exact fun k hk => h k (hp.lookup_eq_some_iff.mp hk)
  simp only [target, hn]

end Program
end RandomAccess

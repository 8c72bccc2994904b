import RandomAccess.Proofs.Machine.Reporting
import RandomAccess.Proofs.Machine.Unseen

/-!
# What a run does to the output tape

A step writes at most one value, and only if the next instruction is a write. A tape that has no sink does
not get one.
-/

namespace RandomAccess

namespace OutputTape

variable {t t' : OutputTape} {v : Int} {x : Option Failure}

theorem Writes.values_eq (h : t.Writes v t' x) : t'.values = t.values.push v := by cases h <;> rfl

theorem Writes.sink_eq_none (h : t.Writes v t' x) (hs : t.sink = none) : t'.sink = none := by
  cases h with
  | kept => exact hs
  | sent hs' => rw [hs] at hs'; cases hs'
  | refused | closed | overlong => exact hs

end OutputTape

namespace Machine

variable {m m' : Machine} {k v : Int} {i : Instruction} {e : Effect} {x : Option Failure} {j n : Nat}

/-! ## One step -/

theorem Causes.writing (h : m.Causes k i (.output v)) (hf : m.Fetches k i) : m.Writing k v := by
  cases h with
  | write hi ho hv hz => exact ⟨i, _, hf, hi, ho, hv, hz⟩

theorem perform_values (hf : m.Fetches k i) (hc : m.Causes k i e) :
    (m.perform e).1.output.values = m.output.values ∨
      ∃ v, m.Writing k v ∧ (m.perform e).1.output.values = m.output.values.push v := by
  cases e with
  | output v => exact Or.inr ⟨v, hc.writing hf, (m.output.writes_write v).values_eq⟩
  | _ => exact Or.inl rfl

theorem Outcome.values_eq (ho : m.Outcome m' x) :
    m'.output.values = m.output.values ∨
      ∃ k v, m.Writing k v ∧ m'.output.values = m.output.values.push v := by
  cases ho with
  | idle | faulted | unreported => exact Or.inl rfl
  | refused hf hc ht => exact Or.inr ⟨_, _, hc.writing hf, ht.values_eq⟩
  | unsent hf hc ht => exact Or.inr ⟨_, _, hc.writing hf, ht.values_eq⟩
  | completed hf hc =>
      rw [after_output]
      exact (perform_values hf hc).imp_right fun ⟨v, h⟩ => ⟨_, v, h⟩
  | uncounted hf hc => exact (perform_values hf hc).imp_right fun ⟨v, h⟩ => ⟨_, v, h⟩

theorem perform_sink (h : m.output.sink = none) : (m.perform e).1.output.sink = none := by
  cases e with
  | output v => exact (m.output.writes_write v).sink_eq_none h
  | _ => exact h

theorem Outcome.sink_eq_none (ho : m.Outcome m' x) (h : m.output.sink = none) : m'.output.sink = none := by
  cases ho with
  | idle | faulted | unreported => exact h
  | refused _ _ ht => exact ht.sink_eq_none h
  | unsent _ _ ht => exact ht.sink_eq_none h
  | completed =>
      rw [after_output]
      exact perform_sink h
  | uncounted => exact perform_sink h

/-! ## Many steps -/

theorem ahead_sink (h : m.output.sink = none) (n : Nat) : (m.ahead n).output.sink = none := by
  induction n with
  | zero => exact h
  | succ n ih =>
      rw [ahead_succ]
      exact (m.ahead n).step_outcome.sink_eq_none ih

theorem ahead_values_grow (h : j ≤ n) :
    (m.ahead j).output.values.toList <+: (m.ahead n).output.values.toList := by
  induction n, h using Nat.le_induction with
  | base => exact List.prefix_rfl
  | succ n _ ih =>
      refine ih.trans ?_
      rw [ahead_succ]
      rcases (m.ahead n).step_outcome.values_eq with hv | ⟨k, v, -, hv⟩
      · rw [hv]
      · rw [hv, Array.toList_push]
        exact List.prefix_append _ _

theorem ahead_values_take (h : j ≤ n) : (m.ahead j).output.values.toList =
    (m.ahead n).output.values.toList.take (m.ahead j).output.values.size := by
  simpa using List.prefix_iff_eq_take.mp (ahead_values_grow (m := m) h)

theorem ahead_values_size (h : j ≤ n) :
    (m.ahead j).output.values.size ≤ (m.ahead n).output.values.size := by
  simpa using (ahead_values_grow (m := m) h).length_le

theorem ahead_values_mem (h : j ≤ n) (hv : v ∈ (m.ahead j).output.values) : v ∈ (m.ahead n).output.values :=
  Array.mem_toList_iff.mp ((ahead_values_grow h).subset (Array.mem_toList_iff.mpr hv))

/-- The step that writes the value number `c` of the tape, counted from zero. -/
theorem exists_writing {c : Nat} (hm : m.output.values.size ≤ c)
    (h : c < (m.ahead n).output.values.size) :
    ∃ j k v, j < n ∧ (m.ahead j).output.values.size = c ∧ (m.ahead j).Writing k v ∧
      (m.ahead (j + 1)).output.values = (m.ahead j).output.values.push v := by
  induction n with
  | zero => exact absurd h (Nat.not_lt.mpr hm)
  | succ n ih =>
      by_cases hn : c < (m.ahead n).output.values.size
      · obtain ⟨j, k, v, hj, hrest⟩ := ih hn
        exact ⟨j, k, v, Nat.lt_succ_of_lt hj, hrest⟩
      · rw [ahead_succ] at h
        rcases (m.ahead n).step_outcome.values_eq with hv | ⟨k, v, hw, hv⟩
        · rw [hv] at h
          exact absurd h hn
        · rw [hv, Array.size_push] at h
          refine ⟨n, k, v, Nat.lt_succ_self n, by omega, hw, ?_⟩
          rw [ahead_succ, hv]

end Machine
end RandomAccess

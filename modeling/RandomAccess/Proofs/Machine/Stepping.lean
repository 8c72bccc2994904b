import RandomAccess.Proofs.Machine.Limit

/-!
# Steps before an execution

Some steps and then an execution do what the execution does alone, as long as the limit leaves room for
the steps. Only the first registers that the execution notes are those after the steps.
-/

namespace RandomAccess.Machine

variable {m m' : Machine} {o : RunOptions} {fuel k n : Nat}

/-- The limit, if there is one, is not reached before `k` more steps. -/
def LeavesRoom (m : Machine) (o : RunOptions) (k : Nat) : Prop :=
  ∀ limit, o.limit = some limit → (m.steps + k : Int) ≤ limit

theorem Proceeds.tail (h : m.Proceeds o (k + n)) : (m.ahead k).Proceeds o n := by
  intro j hj
  rw [← ahead_add]
  exact h (k + j) (Nat.add_lt_add_left hj k)

theorem Proceeds.not_exhausted (h : m.Proceeds o n) (hk : m.LeavesRoom o k) (hn : n < k)
    (hf : (m.ahead n).finished = false) : (m.ahead n).exhausted o = false := by
  cases ho : o.limit with
  | none => simp [exhausted, ho]
  | some limit =>
      have hle := hk limit ho
      rw [not_exhausted_iff ho, h.steps hf]
      omega

/-! ## An execution and its steps -/

/-- The steps of an execution that ends return, and so do more steps than it makes. -/
theorem step_returned (hp : m.Proceeds o n) (he : (m.ahead n).Ends o m') (hk : m.LeavesRoom o k) {j : Nat}
    (hj : j < k) : (m.ahead j).step.2 = none := by
  rcases Nat.lt_or_ge j n with hjn | hjn
  · exact (hp j hjn).step
  · obtain ⟨i, rfl⟩ := Nat.exists_eq_add_of_le hjn
    cases he with
    | finished hf => rw [ahead_add, ahead_of_finished hf, step_of_finished hf]
    | limit hf hx =>
        rw [hp.not_exhausted hk (Nat.lt_of_le_of_lt hjn hj) hf] at hx
        cases hx

/-- After some steps of it, an execution that ends comes to the same end. -/
theorem loop_ahead (hp : m.Proceeds o n) (he : (m.ahead n).Ends o m') (hk : m.LeavesRoom o k)
    (hn : n ≤ fuel) : ∃ t, (m.ahead k).loop o fuel "" = ⟨m', t, .finished⟩ := by
  rcases Nat.lt_or_ge n k with hnk | hnk
  · obtain ⟨i, rfl⟩ := Nat.exists_eq_add_of_le (Nat.le_of_lt hnk)
    cases he with
    | finished hf =>
        rw [ahead_add, ahead_of_finished hf]
        exact ⟨_, loop_of_finished hf⟩
    | limit hf hx =>
        rw [hp.not_exhausted hk hnk hf] at hx
        cases hx
  · obtain ⟨i, rfl⟩ := Nat.exists_eq_add_of_le hnk
    obtain ⟨rest, rfl⟩ := Nat.exists_eq_add_of_le hn
    have hfuel : k + i + rest = i + (k + rest) := by omega
    rw [ahead_add] at he
    rw [hfuel, hp.tail.loop_eq]
    exact ⟨_, he.loop_eq _ _⟩

theorem LeavesRoom.step (h : m.LeavesRoom o (k + 1)) (hs : m.step.2 = none) :
    m.step.1.LeavesRoom o k := by
  intro limit ho
  have hle := h limit ho
  have hstep := step_steps_le hs
  omega

/-- An execution that prints nothing may begin with steps that were made before. -/
theorem loop_of_steps (hd : o.debug = false) (hk : m.LeavesRoom o k)
    (hs : ∀ j < k, (m.ahead j).step.2 = none) (h : ((m.ahead k).loop o fuel "").stop = .finished) :
    (m.loop o (k + fuel) "").stop = .finished := by
  induction k generalizing m with
  | zero => rwa [Nat.zero_add]
  | succ k ih =>
      cases hf : m.finished with
      | true => rw [loop_of_finished hf]
      | false =>
          have hstep : m.step.2 = none := hs 0 (Nat.zero_lt_succ k)
          have he : m.exhausted o = false :=
            (Proceeds.zero m o).not_exhausted hk (Nat.zero_lt_succ k) hf
          have hr : m.Returns o := ⟨hf, he, by rw [tracedStep_of_silent hd]; exact hstep⟩
          rw [Nat.add_right_comm, hr.loop_eq, loop_printed]
          exact ih (hk.step hstep) (fun j hj => hs (j + 1) (Nat.succ_lt_succ hj)) h

/-- An execution that ends, and the execution after `k` steps, of which the limit leaves room: the steps
return and the second execution ends too; if nothing is printed, the first ends if the second does. The
machines that they leave behind differ in the note of the first registers only. -/
theorem execute_ahead (m : Machine) (hk : m.LeavesRoom o k) :
    (∀ fuel, (m.execute fuel o).stop = .finished →
      (∀ j < k, (m.ahead j).step.2 = none) ∧ ((m.ahead k).execute fuel o).stop = .finished) ∧
    (o.debug = false → ∀ fuel, (∀ j < k, (m.ahead j).step.2 = none) →
      ((m.ahead k).execute fuel o).stop = .finished → (m.execute (k + fuel) o).stop = .finished) ∧
    ∀ fuel fuel', (m.execute fuel o).stop = .finished → ((m.ahead k).execute fuel' o).stop = .finished →
      ((m.ahead k).execute fuel' o).machine =
        { (m.execute fuel o).machine with trace := { (m.execute fuel o).machine.trace with
            initial := ((m.ahead k).execute fuel' o).machine.trace.initial } } := by
  refine ⟨fun fuel h => ?_, fun hd fuel hs h => ?_, fun fuel fuel' h h' => ?_⟩
  · rw [execute_stop] at h
    obtain ⟨n, m', hn, hp, he, -⟩ := loop_ended h
    obtain ⟨t, ht⟩ := loop_ahead hp he hk hn
    exact ⟨fun j hj => step_returned hp he hk hj, by rw [execute_of_ended ht]⟩
  · rw [execute_stop] at h ⊢
    exact loop_of_steps hd hk hs h
  · rw [execute_stop] at h
    obtain ⟨n, m', hn, hp, he, hl⟩ := loop_ended h
    obtain ⟨t, ht⟩ := loop_ahead hp he hk hn
    have hsame : (m.ahead k).execute fuel' o = (m.ahead k).execute fuel o :=
      execute_unique (by rw [h']; nofun) (by rw [execute_of_ended ht]; nofun)
    rw [hsame, execute_of_ended hl, execute_of_ended ht]
    rfl

/-- The fault comes with the second of three steps, and the execution after them ends with it too. -/
theorem execute_ahead_stumble :
    (stumble.ahead 3).result = some (.faulted (some 1) .divisionByZero 1) ∧
      ((stumble.ahead 3).execute 2 { limit := some 3, window := 2 }).machine =
        { (stumble.execute 2 { limit := some 3, window := 2 }).machine with
          trace := ⟨[("0 LOAD =1", 1)], 1, some [1, 0], some [1, 0], some 1⟩ } := by
  have hk : stumble.LeavesRoom { limit := some 3, window := 2 } 3 := by
    rintro limit ⟨⟩
    decide
  obtain ⟨-, -, h⟩ := execute_ahead stumble hk
  refine ⟨by decide +kernel, (h 2 2 (by decide +kernel) (by decide +kernel)).trans ?_⟩
  decide +kernel

end RandomAccess.Machine

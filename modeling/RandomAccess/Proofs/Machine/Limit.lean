import RandomAccess.Proofs.Machine.Unseen

/-!
# The limit of steps

An execution with a limit makes the rounds of the execution without one until the limit is reached. So it
ends like that execution if a halt comes with at most, or a fault after fewer steps than the limit, and
else it ends at the limit, whether or not the other execution ever ends.
-/

namespace RandomAccess

def RunOptions.unlimited (o : RunOptions) : RunOptions := { o with limit := none }

/-- The run was over before the limit was reached. -/
def Result.Within (limit : Int) : Result → Prop
  | .halted n => n ≤ limit
  | .faulted _ _ n => n < limit

instance (limit : Int) (r : Result) : Decidable (r.Within limit) :=
  match r with
  | .halted n => inferInstanceAs (Decidable ((n : Int) ≤ limit))
  | .faulted _ _ n => inferInstanceAs (Decidable ((n : Int) < limit))

namespace Machine

variable {m : Machine} {o : RunOptions} {limit : Int} {fuel n : Nat}

/-! ## Rounds with and without a limit -/

theorem exhausted_iff (ho : o.limit = some limit) : m.exhausted o = true ↔ limit ≤ m.steps := by
  simp [exhausted, ho]

theorem not_exhausted_iff (ho : o.limit = some limit) : m.exhausted o = false ↔ m.steps < limit := by
  simp [exhausted, ho]

theorem Proceeds.unlimited (h : m.Proceeds o n) : m.Proceeds o.unlimited n :=
  fun j hj => ⟨(h j hj).running, rfl, (h j hj).returned⟩

theorem Stops.unlimited {printed : String} {e : Execution} (h : m.Stops o printed fuel e)
    (he : m.exhausted o = true → m.finished = true) : m.Stops o.unlimited printed fuel e := by
  cases h with
  | ended h =>
      cases h with
      | finished h => exact .ended (.finished h)
      | limit h hx => rw [he hx] at h; cases h
  | failed h _ hs => exact .failed h rfl hs
  | outOfFuel h _ => exact .outOfFuel h rfl

/-- A run that its `n + 1`-st round ended tells so in its result. -/
theorem Proceeds.result (h : m.Proceeds o (n + 1)) (hf : (m.ahead (n + 1)).finished = true) :
    (m.ahead (n + 1)).result = some (.halted (m.steps + n + 1)) ∨
      ∃ i f, (m.ahead (n + 1)).result = some (.faulted i f (m.steps + n)) := by
  have hn := h n (Nat.lt_succ_self n)
  have hs := (h.mono (Nat.le_succ n)).steps hn.running
  rw [ahead_succ] at hf ⊢
  rcases step_cases hn.running hn.step with ⟨hf', -⟩ | ⟨hr, -⟩ | ⟨f, hr, -⟩
  · rw [hf'] at hf
    cases hf
  · exact Or.inl (by rw [hr, hs])
  · exact Or.inr ⟨_, f, by rw [hr, hs]⟩

theorem Proceeds.within_iff (h : m.Proceeds o (n + 1)) {r : Result}
    (hr : (m.ahead (n + 1)).result = some r) : r.Within limit ↔ (m.steps + n : Int) < limit := by
  rcases h.result (by simp [finished, hr]) with hr' | ⟨i, f, hr'⟩
  all_goals
    rw [hr] at hr'
    cases hr'
    simp only [Result.Within]
    omega

/-! ## Executions with and without a limit -/

/-- The execution without a limit ends with `e`, and before the limit is reached. -/
def EndsWithin (m : Machine) (o : RunOptions) (limit : Int) (e : Execution) : Prop :=
  (∃ fuel, m.execute fuel o.unlimited = e) ∧ e.stop = .finished ∧
    ∃ r, e.machine.result = some r ∧ r.Within limit

theorem EndsWithin.proceeds {e : Execution} (h : m.EndsWithin o limit e) (hm : m.finished = false) :
    ∃ n, m.Proceeds o.unlimited (n + 1) ∧ (m.ahead (n + 1)).finished = true ∧
      (m.steps + n : Int) < limit := by
  obtain ⟨⟨fuel, rfl⟩, hs, r, hr, hw⟩ := h
  rw [execute_stop] at hs
  obtain ⟨n, m', -, hp, he, hl⟩ := loop_ended hs
  rw [execute_of_ended hl] at hr
  cases he with
  | finished hf =>
      cases n with
      | zero => rw [ahead_zero, hm] at hf; cases hf
      | succ n => exact ⟨n, hp, hf, (hp.within_iff hr).mp hw⟩
  | limit _ hx => cases hx

theorem EndsWithin.unique {e e' : Execution} (h : m.EndsWithin o limit e) (h' : m.EndsWithin o limit e') :
    e = e' := by
  obtain ⟨⟨fuel, rfl⟩, hs, -⟩ := h
  obtain ⟨⟨fuel', rfl⟩, hs', -⟩ := h'
  exact execute_unique (by rw [hs]; nofun) (by rw [hs']; nofun)

theorem endsWithin_of_finished (ho : o.limit = some limit) (hm : m.finished = false)
    (hp : m.Proceeds o n) (hf : (m.ahead n).finished = true) {t : String}
    (hl : m.loop o fuel "" = ⟨m.ahead n, t, .finished⟩)
    (hu : m.execute fuel o.unlimited = m.execute fuel o) : m.EndsWithin o limit (m.execute fuel o) := by
  obtain ⟨r, hr⟩ := Option.isSome_iff_exists.mp hf
  refine ⟨⟨fuel, hu⟩, by rw [execute_of_ended hl], r, by rw [execute_of_ended hl]; exact hr, ?_⟩
  cases n with
  | zero => rw [ahead_zero, hm] at hf; cases hf
  | succ n =>
      have hn := hp n (Nat.lt_succ_self n)
      have hlt := (not_exhausted_iff ho).mp hn.within
      rw [(hp.mono (Nat.le_succ n)).steps hn.running] at hlt
      exact (hp.within_iff hr).mpr hlt

/-- The limit is reached only if the execution without a limit does not end before. -/
theorem not_endsWithin (ho : o.limit = some limit) (hm : m.finished = false) (hp : m.Proceeds o n)
    (hf : (m.ahead n).finished = false) (he : (m.ahead n).exhausted o = true) (e : Execution) :
    ¬ m.EndsWithin o limit e := by
  intro h
  obtain ⟨k, -, hk, hlt⟩ := h.proceeds hm
  have hle : limit ≤ (m.steps + n : Nat) := by
    rw [← hp.steps hf]
    exact (exhausted_iff ho).mp he
  rcases Nat.lt_or_ge (k + 1) n with hkn | hkn
  · rw [(hp (k + 1) hkn).running] at hk
    cases hk
  · have hkn : n = k + 1 := by omega
    rw [← hkn, hf] at hk
    cases hk

/-- Unless it stops at the limit, the execution without one does the same. -/
theorem execute_unlimited {rest : Nat} (hp : m.Proceeds o n)
    (hs : (m.ahead n).Stops o ("" ++ m.transcript o n) rest (m.loop o (n + rest) ""))
    (he : (m.ahead n).exhausted o = true → (m.ahead n).finished = true) :
    m.execute (n + rest) o.unlimited = m.execute (n + rest) o := by
  refine execute_congr ?_ rfl rfl
  rw [hp.unlimited.loop_eq]
  exact (hs.unlimited he).loop_eq

/-- Where the limit is reached, the steps made are as many as the limit allows. -/
theorem Proceeds.reaches_limit (ho : o.limit = some limit) (h : m.Proceeds o n)
    (hf : (m.ahead n).finished = false) (he : (m.ahead n).exhausted o = true) :
    (m.steps + n : Int) = max (m.steps : Int) limit := by
  have hle := (exhausted_iff ho).mp he
  rw [h.steps hf] at hle
  cases n with
  | zero => omega
  | succ n =>
      have hn := h n (Nat.lt_succ_self n)
      have hlt := (not_exhausted_iff ho).mp hn.within
      rw [(h.mono (Nat.le_succ n)).steps hn.running] at hlt
      omega

/-- An execution with a limit always comes to an end. If the run was over before, it stays as it is. Else
the execution fails where the one without a limit fails, it ends like that one if that one ends before
the limit is reached, and otherwise it ends at the limit: after as many completed instructions as the
limit allows, at the instruction that would have come next. -/
theorem execute_limited (m : Machine) (ho : o.limit = some limit) (fuel : Nat)
    (hfuel : limit ≤ m.steps + fuel) :
    (m.execute fuel o).stop ≠ .outOfFuel ∧
      (m.finished = true → (m.execute fuel o).stop = .finished ∧ m.Same (m.execute fuel o).machine) ∧
      (∀ x, (m.execute fuel o).stop = .failed x → m.execute fuel o = m.execute fuel o.unlimited) ∧
      (m.finished = false → (m.execute fuel o).stop = .finished →
        (∀ e, m.EndsWithin o limit e → m.execute fuel o = e) ∧
        ((∀ e, ¬ m.EndsWithin o limit e) → ∃ n : Nat, (m.steps + n : Int) = max (m.steps : Int) limit ∧
          (∀ j < n, (m.ahead j).step.2 = none) ∧ (m.ahead n).steps = m.steps + n ∧
          (m.execute fuel o).machine.result =
            some (.faulted (m.ahead n).ip .limitReached (m.steps + n)) ∧
          ((m.ahead n).fault .limitReached).Same (m.execute fuel o).machine)) := by
  have hover (h : m.finished = true) :
      (m.execute fuel o).stop = .finished ∧ m.Same (m.execute fuel o).machine :=
    run_of_finished h (.execute fuel o)
  have hstop := execute_stop m fuel o
  obtain ⟨n, rest, rfl, hp, hs⟩ := loop_stops m o fuel ""
  have hsame := execute_unlimited hp hs
  generalize hl : m.loop o (n + rest) "" = e at hs hstop
  cases hs with
  | ended hend =>
      refine ⟨by simp [hstop], hover, by simp [hstop], fun hm _ => ?_⟩
      cases hend with
      | finished hf =>
          have hw := endsWithin_of_finished ho hm hp hf hl (hsame fun _ => hf)
          exact ⟨fun e he => hw.unique he, fun hnot => absurd hw (hnot _)⟩
      | limit hf he =>
          refine ⟨fun e h => absurd h (not_endsWithin ho hm hp hf he e), fun _ => ?_⟩
          rw [execute_of_ended hl]
          refine ⟨n, hp.reaches_limit ho hf he, fun j hj => (hp j hj).step, hp.steps hf, ?_, .noted _ _ _⟩
          rw [← hp.steps hf]
          rfl
  | failed hf he hr =>
      have hu := hsame (by simp [he])
      exact ⟨by simp [hstop], hover, fun _ _ => hu.symm, by simp [hstop]⟩
  | outOfFuel hf he =>
      have hlt := (not_exhausted_iff ho).mp he
      rw [hp.steps hf] at hlt
      omega

/-- Divides by zero after one instruction. -/
def stumble : Machine :=
  Machine.new { instructions := #[{ opcode := .load, operand := some (.constant 1) },
    { opcode := .div, operand := some (.constant 0) }] }

/-- The fault comes after one step: a limit of two steps lets it come, a limit of one does not. -/
theorem execute_limited_stumble :
    stumble.execute 2 { limit := some 2 } = stumble.execute 9 {} ∧
      (stumble.execute 9 {}).machine.result = some (.faulted (some 1) .divisionByZero 1) ∧
      ∃ n : Nat, (0 + n : Int) = max 0 1 ∧ (stumble.execute 1 { limit := some 1 }).machine.result =
        some (.faulted (stumble.ahead n).ip .limitReached (0 + n)) := by
  have hstop : (stumble.execute 9 {}).stop = .finished := by decide +kernel
  have hres : (stumble.execute 9 {}).machine.result = some (.faulted (some 1) .divisionByZero 1) := by
    decide +kernel
  have hlate (e : Execution) : ¬ stumble.EndsWithin { limit := some 1 } 1 e := by
    rintro ⟨⟨fuel, rfl⟩, hs, r, hr, hw⟩
    have hu : RunOptions.unlimited { limit := some 1 } = {} := rfl
    rw [hu] at hs hr
    have hsame : stumble.execute fuel {} = stumble.execute 9 {} :=
      execute_unique (by rw [hs]; nofun) (by rw [hstop]; nofun)
    rw [hsame, hres] at hr
    cases hr
    exact absurd hw (by decide)
  obtain ⟨-, -, -, htwo⟩ := execute_limited stumble (o := { limit := some 2 }) rfl 2 (by decide)
  obtain ⟨-, -, -, hone⟩ := execute_limited stumble (o := { limit := some 1 }) rfl 1 (by decide)
  refine ⟨(htwo rfl (by decide +kernel)).1 _ ⟨⟨9, rfl⟩, hstop, _, hres, by decide⟩, hres, ?_⟩
  obtain ⟨n, hn, -, -, hr, -⟩ := (hone rfl (by decide +kernel)).2 hlate
  exact ⟨n, hn, hr⟩

end Machine
end RandomAccess

import RandomAccess.Proofs.Machine.Outcome
import RandomAccess.Proofs.Registers.Recall

/-!
# Division drops the fraction

A quotient without its fraction leaves a remainder that is smaller than the divisor and has the sign of the
dividend. There is one such quotient for every divisor but zero. It is what division puts into a register,
though that divides the absolute values and sets the sign afterwards, whatever the signs are. For a division
in a program it does not matter where the divisor comes from, be it the accumulator itself.
-/

namespace RandomAccess

open Abstract

/-! ## Quotients -/

/-- `q` times `v` is `a` up to a remainder, which is smaller than `v` and has the sign of `a`. -/
def Truncates (a v q : Int) : Prop :=
  ∃ rem : Int, a = q * v + rem ∧ rem.natAbs < v.natAbs ∧ (rem = 0 ∨ rem.sign = a.sign)

variable {a v q : Int}

theorem truncates_tdiv (hv : v ≠ 0) (a : Int) : Truncates a v (a.tdiv v) := by
  refine ⟨a.tmod v, (Int.tdiv_mul_add_tmod a v).symm, ?_, ?_⟩
  · rw [Int.natAbs_tmod]
    exact Nat.mod_lt _ (Int.natAbs_pos.mpr hv)
  · have hsign := Int.sign_tmod a v
    split at hsign
    · exact Or.inl (Int.sign_eq_zero_iff_zero.mp hsign)
    · exact Or.inr hsign

/-- The remainders of two quotients are on the same side of zero, so they differ by less than the
divisor. -/
theorem Truncates.unique {q' : Int} (h : Truncates a v q) (h' : Truncates a v q') : q = q' := by
  obtain ⟨rem, ha, hlt, hs⟩ := h
  obtain ⟨rem', ha', hlt', hs'⟩ := h'
  have hside {x : Int} (hx : x = 0 ∨ x.sign = a.sign) : (0 ≤ a → 0 ≤ x) ∧ (a ≤ 0 → x ≤ 0) := by
    rcases hx with rfl | hx
    · exact ⟨fun _ => Int.le_refl 0, fun _ => Int.le_refl 0⟩
    · have hnonneg : 0 ≤ x ↔ 0 ≤ a := by rw [← Int.sign_nonneg_iff, hx, Int.sign_nonneg_iff]
      have hnonpos : x ≤ 0 ↔ a ≤ 0 := by rw [← Int.sign_nonpos_iff, hx, Int.sign_nonpos_iff]
      exact ⟨hnonneg.mpr, hnonpos.mpr⟩
  have hrem := hside hs
  have hrem' := hside hs'
  have hdiff : (q' - q) * v = rem - rem' := by
    rw [Int.sub_mul]
    omega
  have hzero : rem - rem' = 0 :=
    Int.eq_zero_of_dvd_of_natAbs_lt_natAbs ⟨q' - q, by rw [← hdiff, Int.mul_comm]⟩ (by omega)
  rw [hzero, Int.mul_eq_zero] at hdiff
  omega

theorem truncates_iff (hv : v ≠ 0) : Truncates a v q ↔ q = a.tdiv v := by
  constructor
  · intro h
    exact h.unique (truncates_tdiv hv a)
  · rintro rfl
    exact truncates_tdiv hv a

/-! ## Registers -/

/-- Dividing register `i` by `v` leaves `q` in it, and the other registers as they are. -/
def Registers.DividesTo (r : Registers) (i : Nat) (v q : Int) : Prop :=
  ∃ r', (Request.update .div i v).run r = (r', .ok .done) ∧
    ∀ j, r'.cell j = if j = i then q else r.cell j

theorem Registers.dividesTo_tdiv (r : Registers) (i : Nat) (hv : v ≠ 0) :
    r.DividesTo i v ((r.cell i).tdiv v) := by
  refine ⟨r.put i ((r.cell i).tdiv v), ?_, fun j => ?_⟩
  · rw [Request.run, update_eq r (by simpa using hv), index_natCast, ← quotient_eq_tdiv]
    rfl
  · rw [cell_put]
    simp only [eq_comm]

/-! ## Machines -/

namespace Machine

variable {m : Machine} {k : Int} {i : Instruction} {o : Operand}

/-- The next instruction divides by an operand that stands for `v`. -/
structure Divides (m : Machine) (o : Operand) (v : Int) : Prop where
  fetches : ∃ k l, m.Fetches k ⟨.div, some o, l⟩
  denotes : Denotes m.registers.cell o v

/-- An instruction that sets a register leaves it set, also if it has no text and is not counted. -/
theorem step_of_assign {n : Nat} {w : Int} (hf : m.Fetches k i) (he : m.effect k i = .ok (.assign n w)) :
    m.step.1.registers = m.registers.put n w ∧ (i.writable = true → m.step.2 = none) := by
  have hp : m.plan = .ok (k, i, .assign n w) := by
    rw [hf.plan_eq, he]
    rfl
  rw [step_of_perform_none hf.running hp rfl]
  split
  · exact ⟨after_registers, fun _ => rfl⟩
  · rename_i hw
    exact ⟨rfl, fun h => absurd h hw⟩

theorem Divides.effect_eq (h : m.Divides o v) (k : Int) (l : Option String) :
    m.effect k ⟨.div, some o, l⟩ = m.arithmetic .div v :=
  effect_of_arithmetic .div rfl (h.denotes.value_eq .div)

theorem Divides.step_of_zero (h : m.Divides o 0) : m.step = (m.fault .divisionByZero, none) := by
  obtain ⟨k, l, hf⟩ := h.fetches
  have hp : m.plan = .error (.fault .divisionByZero) := by
    rw [hf.plan_eq, h.effect_eq]
    rfl
  rw [step_of_plan_error hf.running hp]
  rfl

theorem Divides.step_of_ne_zero (h : m.Divides o v) (hv : v ≠ 0) :
    m.step.1.registers = m.registers.put 0 (m.registers.acc.tdiv v) ∧
      (o.writable = true → m.step.2 = none) := by
  obtain ⟨k, l, hf⟩ := h.fetches
  refine step_of_assign hf ?_
  rw [h.effect_eq, arithmetic, Registers.Arithmetic.check, if_neg (by simpa using hv),
    ← Registers.quotient_eq_tdiv]
  rfl

/-- An operand that names the accumulator stands for its contents. -/
theorem Divides.eq_acc (h : m.Divides o v) (hn : Names m.registers.cell o 0) : v = m.registers.acc := by
  have hacc : Denotes m.registers.cell o (m.registers.cell 0) := .register hn
  exact Except.ok.inj ((h.denotes.value_eq .div).symm.trans (hacc.value_eq .div))

end Machine

/-- Division by zero is refused and changes nothing. Division by any other number leaves the one quotient
without a fraction, which changes its sign with the dividend and with the divisor; it changes one register
only. A division in a program does the same to the accumulator, whether the divisor is a constant, in a
register or in the accumulator itself; the quotient is then one. -/
theorem division_truncates (v : Int) :
    (v = 0 →
      (∀ (r : Registers) (i : Nat),
        (Registers.Request.update .div i v).run r = (r, .error (.fault .divisionByZero))) ∧
      ∀ (m : Machine) (o : Operand), m.Divides o v → m.step = (m.fault .divisionByZero, none)) ∧
    (v ≠ 0 →
      (∀ (r : Registers) (i : Nat), ∃ q, (∀ q', Truncates (r.cell i) v q' ↔ q' = q) ∧
        r.DividesTo i v q ∧ r.DividesTo i (-v) (-q) ∧
        ∀ s : Registers, s.cell i = -r.cell i → s.DividesTo i v (-q)) ∧
      ∀ (m : Machine) (o : Operand), m.Divides o v →
        (∃ q, (∀ q', Truncates m.registers.acc v q' ↔ q' = q) ∧
          ∀ j, m.step.1.registers.cell j = if j = 0 then q else m.registers.cell j) ∧
        (Names m.registers.cell o 0 → m.step.1.registers.acc = 1) ∧
        (o.writable = true → m.step.2 = none)) := by
  refine ⟨?_, fun hv => ⟨fun r i => ?_, fun m o h => ?_⟩⟩
  · rintro rfl
    exact ⟨fun r i => Registers.run_of_zero_divisor r ⟨rfl, rfl⟩, fun m o h => h.step_of_zero⟩
  · refine ⟨(r.cell i).tdiv v, fun q' => truncates_iff hv, r.dividesTo_tdiv i hv, ?_, fun s hs => ?_⟩
    · rw [← Int.tdiv_neg]
      exact r.dividesTo_tdiv i (by omega)
    · rw [← Int.neg_tdiv, ← hs]
      exact s.dividesTo_tdiv i hv
  · obtain ⟨hregs, hret⟩ := h.step_of_ne_zero hv
    refine ⟨⟨m.registers.acc.tdiv v, fun q' => truncates_iff hv, fun j => ?_⟩, fun hn => ?_, hret⟩
    · rw [hregs, Registers.cell_put]
      simp only [eq_comm]
    · rw [hregs, Registers.acc, Registers.cell_put, if_pos rfl, ← h.eq_acc hn, Int.tdiv_self hv]

/-- Divides the accumulator by the register that register 2 names, which is the accumulator. -/
def selfDivision : Machine :=
  { Machine.new (.ofInstructions [⟨.div, some (.indirect 2), none⟩]) with
    registers := Registers.put {} 0 (-7) }

theorem division_truncates_selfDivision :
    selfDivision.Divides (.indirect 2) (-7) ∧ selfDivision.step.1.registers.acc = 1 ∧
      Registers.DividesTo (.put {} 3 7) 3 (-2) (-3) := by
  have hn : Names selfDivision.registers.cell (.indirect 2) 0 := Names.indirect 2
  have h : selfDivision.Divides (.indirect 2) (-7) := ⟨⟨0, none, rfl, rfl, rfl⟩, .register hn⟩
  obtain ⟨q, hq, -, hdivides, -⟩ := ((division_truncates 2).2 (by decide)).1 (.put {} 3 7) 3
  obtain rfl : 3 = q := (hq 3).mp ⟨1, by decide⟩
  exact ⟨h, (((division_truncates (-7)).2 (by decide)).2 selfDivision (.indirect 2) h).2.1 hn, hdivides⟩

end RandomAccess

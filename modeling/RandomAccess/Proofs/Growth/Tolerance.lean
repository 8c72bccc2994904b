import RandomAccess.Proofs.Growth.Interpolation

/-!
# How far an estimate is from the samples

With a tolerance, the exact estimate finds the polynomial of the smallest degree that passes through the
first samples and comes close to the others. What it gives is this polynomial without its leading
coefficients that round to zero, and that is another polynomial. So the estimate may be off by what was left
out, which grows with the lengths.

Nothing is left out as long as the lengths are close to each other: the coefficients are whole multiples of
the inverse of a product of differences of lengths, so they are zero or not too small.
-/

namespace RandomAccess

open Polynomial

/-! ## Leading coefficients -/

section Leading

variable {ds cs : List ℚ} {ε : ℚ}

theorem exists_trimLeading (negligible : ℚ → Bool) (cs : List ℚ) :
    ∃ dropped, (∀ c ∈ dropped, negligible c = true) ∧ dropped ++ trimLeading negligible cs = cs := by
  fun_induction trimLeading negligible cs with
  | case1 a b r ha ih =>
      obtain ⟨dropped, hdropped, happend⟩ := ih
      exact ⟨a :: dropped, List.forall_mem_cons.mpr ⟨ha, hdropped⟩, by rw [List.cons_append, happend]⟩
  | case2 => exact ⟨[], nofun, rfl⟩
  | case3 => exact ⟨[], nofun, rfl⟩

theorem trimLeading_ne_nil {negligible : ℚ → Bool} (h : cs ≠ []) : trimLeading negligible cs ≠ [] := by
  fun_induction trimLeading negligible cs with
  | case1 a b r ha ih => exact ih (List.cons_ne_nil b r)
  | case2 => exact h
  | case3 => exact h

theorem roundsToZero_iff {c : ℚ} : RoundsToZero c ↔ |c| * 2000000 ≤ 1 := by
  have h := congrFun negligible_eq c
  simp only [exactArithmetic, Scalar.abs_rat, decide_eq_decide] at h
  exact h.symm

theorem horner_append (ds cs : List ℚ) (x : ℚ) :
    horner (ds ++ cs) x = horner ds x * x ^ cs.length + horner cs x := by
  induction ds with
  | nil => simp [horner_eq]
  | cons d ds ih =>
      rw [List.cons_append, horner_cons, horner_cons, ih, List.length_append]
      ring

theorem abs_horner_le (h : ∀ c ∈ ds, |c| ≤ ε) (x : ℚ) :
    |horner ds x| ≤ ε * ∑ k ∈ Finset.range ds.length, |x| ^ k := by
  induction ds with
  | nil => simp [horner_eq]
  | cons d ds ih =>
      obtain ⟨hd, hds⟩ := List.forall_mem_cons.mp h
      rw [horner_cons, List.length_cons, Finset.sum_range_succ]
      calc |d * x ^ ds.length + horner ds x|
          ≤ |d * x ^ ds.length| + |horner ds x| := abs_add_le _ _
        _ = |d| * |x| ^ ds.length + |horner ds x| := by rw [abs_mul, abs_pow]
        _ ≤ ε * |x| ^ ds.length + ε * ∑ k ∈ Finset.range ds.length, |x| ^ k := by
            gcongr
            exact ih hds
        _ = ε * (∑ k ∈ Finset.range ds.length, |x| ^ k + |x| ^ ds.length) := by ring

end Leading

/-! ## Differences of lengths -/

section Differences

variable {p q : ℚ[X]} {samples : List (Sample Int)}

/-- The product of the differences of all pairs of numbers. -/
def spread : List Int → Int
  | [] => 1
  | n :: ns => (ns.map (n - ·)).prod * spread ns

theorem prod_sub_eq_zero_iff {ns : List Int} {n : Int} : (ns.map (n - ·)).prod = 0 ↔ n ∈ ns := by
  rw [List.prod_eq_zero_iff, List.mem_map]
  constructor
  · rintro ⟨k, hk, hn⟩
    rwa [sub_eq_zero.mp hn]
  · intro hn
    exact ⟨n, hn, sub_self n⟩

theorem spread_ne_zero {ns : List Int} (h : ns.Nodup) : spread ns ≠ 0 := by
  induction ns with
  | nil => exact one_ne_zero
  | cons n ns ih =>
      obtain ⟨hn, hns⟩ := List.nodup_cons.mp h
      exact mul_ne_zero (mt prod_sub_eq_zero_iff.mp hn) (ih hns)

/-- The polynomial with these zeros. -/
noncomputable def vanishing (ns : List Int) : ℤ[X] := (ns.map fun n => X - C n).prod

theorem eval_vanishing (ns : List Int) (n : Int) : (vanishing ns).eval n = (ns.map (n - ·)).prod := by
  rw [vanishing, eval_list_prod, List.map_map]
  simp [Function.comp_def]

theorem monic_vanishing (ns : List Int) : (vanishing ns).Monic := by
  induction ns with
  | nil => exact monic_one
  | cons n ns ih => exact (monic_X_sub_C n).mul ih

theorem natDegree_vanishing (ns : List Int) : (vanishing ns).natDegree = ns.length := by
  induction ns with
  | nil => exact natDegree_one
  | cons n ns ih =>
      have hmul : vanishing (n :: ns) = (X - C n) * vanishing ns := List.prod_cons
      rw [hmul, (monic_X_sub_C n).natDegree_mul (monic_vanishing ns), natDegree_X_sub_C, ih,
        List.length_cons, Nat.add_comm]

/-- The polynomial with rational coefficients. -/
noncomputable abbrev rational (q : ℤ[X]) : ℚ[X] := q.map (Int.castRingHom ℚ)

theorem eval_rational (q : ℤ[X]) (n : Int) : (rational q).eval (n : ℚ) = q.eval n := by
  simp [rational]

theorem degree_rational_vanishing (ns : List Int) : (rational (vanishing ns)).degree = ns.length := by
  have hmonic := (monic_vanishing ns).map (Int.castRingHom ℚ)
  rw [degree_eq_natDegree hmonic.ne_zero, (monic_vanishing ns).natDegree_map, natDegree_vanishing]

theorem eval_rational_vanishing {ns : List Int} {n : Int} :
    (rational (vanishing ns)).eval (n : ℚ) = 0 ↔ n ∈ ns := by
  rw [eval_rational, eval_vanishing, Int.cast_eq_zero, prod_sub_eq_zero_iff]

/-- If two lengths were the same, another polynomial would pass through the samples as well. -/
theorem nodup_of_unique (hp : Interpolates p samples) (hu : ∀ q, Interpolates q samples → q = p) :
    (samples.map Prod.fst).Nodup := by
  by_contra hdup
  have hlt : (samples.map Prod.fst).dedup.length < samples.length := by
    have hle := (List.dedup_sublist (samples.map Prod.fst)).length_le
    have hne := mt (List.dedup_sublist (samples.map Prod.fst)).eq_of_length (mt List.dedup_eq_self.mp hdup)
    rw [List.length_map] at hle hne
    omega
  have hother : Interpolates (p + rational (vanishing (samples.map Prod.fst).dedup)) samples := by
    refine ⟨(degree_add_le _ _).trans_lt (max_lt hp.degree_lt ?_), fun s hs => ?_⟩
    · rw [degree_rational_vanishing]
      exact_mod_cast hlt
    · have hmem : s.1 ∈ (samples.map Prod.fst).dedup := List.mem_dedup.mpr (List.mem_map_of_mem hs)
      rw [eval_add, eval_rational_vanishing.mpr hmem, add_zero, hp.passes s hs]
  have hzero := add_eq_left.mp (hu _ hother)
  exact ((monic_vanishing _).map (Int.castRingHom ℚ)).ne_zero hzero

theorem Interpolates.extend {s : Sample Int} {c : ℚ} (hp : Interpolates p samples)
    (hc : p.eval (s.1 : ℚ) + c * (rational (vanishing (samples.map Prod.fst))).eval (s.1 : ℚ) = s.2) :
    Interpolates (p + C c * rational (vanishing (samples.map Prod.fst))) (s :: samples) where
  degree_lt := by
    have hlt : (samples.length : WithBot ℕ) < (s :: samples).length := by
      exact_mod_cast Nat.lt_succ_self samples.length
    refine (degree_add_le _ _).trans_lt (max_lt (hp.degree_lt.trans hlt) ?_)
    rw [← smul_eq_C_mul]
    refine (degree_smul_le c _).trans_lt ?_
    rwa [degree_rational_vanishing, List.length_map]
  passes t ht := by
    rw [eval_add, eval_C_mul]
    rcases List.mem_cons.mp ht with rfl | ht
    · exact hc
    · rw [eval_rational_vanishing.mpr (List.mem_map_of_mem ht), mul_zero, add_zero, hp.passes t ht]

/-- The polynomial through one more sample differs by a multiple of the one that vanishes at the lengths of
the others. -/
theorem Interpolates.exists_multiple {s : Sample Int} (h : ((s :: samples).map Prod.fst).Nodup)
    (hp : Interpolates p (s :: samples)) (hq : Interpolates q samples) :
    ∃ c : ℚ, p = q + C c * rational (vanishing (samples.map Prod.fst)) ∧
      c * (rational (vanishing (samples.map Prod.fst))).eval (s.1 : ℚ) = s.2 - q.eval (s.1 : ℚ) := by
  have hne := mt eval_rational_vanishing.mp (List.nodup_cons.mp h).1
  have hc := div_mul_cancel₀ ((s.2 : ℚ) - q.eval (s.1 : ℚ)) hne
  refine ⟨_, hp.unique h (hq.extend ?_), hc⟩
  rw [hc, add_sub_cancel]

/-- A multiple of the polynomial through samples has whole coefficients: the factor is the product of the
differences of their lengths. -/
theorem Interpolates.exists_whole (h : (samples.map Prod.fst).Nodup) (hp : Interpolates p samples) :
    ∃ q : ℤ[X], rational q = C (spread (samples.map Prod.fst) : ℚ) * p := by
  induction samples generalizing p with
  | nil =>
      have hzero : p = 0 := degree_eq_bot.mp (by simpa using hp.degree_lt)
      exact ⟨0, by simp [hzero]⟩
  | cons s samples ih =>
      have hnodup := (List.nodup_cons.mp h).2
      obtain ⟨p', hp'⟩ := exists_interpolates hnodup
      obtain ⟨q, hq⟩ := ih hnodup hp'
      obtain ⟨c, rfl, hc⟩ := hp.exists_multiple h hp'
      have hspread : spread ((s :: samples).map Prod.fst) =
          (vanishing (samples.map Prod.fst)).eval s.1 * spread (samples.map Prod.fst) := by
        rw [List.map_cons, spread, eval_vanishing]
      have heval : ((q.eval s.1 : ℤ) : ℚ) = spread (samples.map Prod.fst) * p'.eval (s.1 : ℚ) := by
        rw [← eval_rational, hq, eval_C_mul]
      rw [eval_rational] at hc
      rw [hspread]
      generalize vanishing (samples.map Prod.fst) = N at hc ⊢
      generalize spread (samples.map Prod.fst) = d at hq heval ⊢
      -- what is added is whole, too: times `d` it is `d * s.2 - q.eval s.1` times `N`
      refine ⟨C (N.eval s.1) * q + C (d * s.2 - q.eval s.1) * N, ?_⟩
      calc rational (C (N.eval s.1) * q + C (d * s.2 - q.eval s.1) * N)
          = C ((N.eval s.1 : ℤ) : ℚ) * rational q + C (d * s.2 - (q.eval s.1 : ℤ) : ℚ) * rational N := by
            simp [rational]
        _ = C ((N.eval s.1 : ℤ) : ℚ) * (C (d : ℚ) * p') + C (d * (c * (N.eval s.1 : ℤ))) * rational N := by
            rw [hq, heval, hc, mul_sub]
        _ = C ((N.eval s.1 * d : ℤ) : ℚ) * (p' + C c * rational N) := by
            simp only [Int.cast_mul, C_mul]
            ring

/-- A coefficient is zero or not smaller than the inverse of the product of the differences. -/
theorem Interpolates.coeff_eq_zero (h : (samples.map Prod.fst).Nodup) (hp : Interpolates p samples)
    (hspread : |spread (samples.map Prod.fst)| < 2000000) {i : Nat} (hi : RoundsToZero (p.coeff i)) :
    p.coeff i = 0 := by
  obtain ⟨q, hq⟩ := hp.exists_whole h
  have hcoeff : (q.coeff i : ℚ) = spread (samples.map Prod.fst) * p.coeff i := by
    rw [← coeff_C_mul, ← hq, coeff_map]
    rfl
  rw [roundsToZero_iff] at hi
  have hcast : |(spread (samples.map Prod.fst) : ℚ)| < 2000000 := by exact_mod_cast hspread
  by_contra hne
  have hpos : 0 < |p.coeff i| := abs_pos.mpr hne
  have hlt : |(q.coeff i : ℚ)| < 1 := by
    calc |(q.coeff i : ℚ)| = |(spread (samples.map Prod.fst) : ℚ)| * |p.coeff i| := by rw [hcoeff, abs_mul]
      _ < 2000000 * |p.coeff i| := by gcongr
      _ ≤ 1 := by rwa [mul_comm]
  have hzero : q.coeff i = 0 := Int.abs_lt_one_iff.mp (by exact_mod_cast hlt)
  rw [hzero, Int.cast_zero] at hcoeff
  exact mul_ne_zero (Int.cast_ne_zero.mpr (spread_ne_zero h)) hne hcoeff.symm

end Differences

/-! ## The search -/

variable {p q : ℚ[X]} {samples : List (Sample Int)} {k : Nat} {tolerance : ℚ} {cs : List ℚ}

/-- The polynomial is within the tolerance of every sample. -/
def Passes (tolerance : ℚ) (cs : List ℚ) (samples : List (Sample Int)) : Prop :=
  ∀ s ∈ samples, |horner cs (s.1 : ℚ) - s.2| ≤ tolerance

instance : Decidable (Passes tolerance cs samples) := inferInstanceAs (Decidable (∀ s ∈ samples, _))

theorem exists_fits_of_search {a n : Nat} (han : a + n ≤ samples.length)
    (h : exactArithmetic.search tolerance samples (List.range' a n) = .ok (some cs)) :
    ∃ k p, k < a + n ∧ Fits tolerance samples k p ∧
      (∀ j, a ≤ j → j < k → ∀ q, ¬ Fits tolerance samples j q) ∧
      cs = trimLeading exactArithmetic.negligible (coefficients p (k + 1)) := by
  induction n generalizing a with
  | zero => cases h
  | succ n ih =>
      rw [List.range'_succ] at h
      by_cases hfits : ∃ p, Fits tolerance samples a p
      · obtain ⟨p, hp⟩ := hfits
        rw [search_of_fits (by omega) hp] at h
        cases h
        exact ⟨a, p, by omega, hp, by omega, rfl⟩
      · have hnone := not_exists.mp hfits
        rw [search_of_not_fits (by omega) hnone] at h
        obtain ⟨k, p, hk, hp, hleast, hcs⟩ := ih (by omega) h
        refine ⟨k, p, by omega, hp, fun j hj hjk => ?_, hcs⟩
        rcases Nat.eq_or_lt_of_le hj with rfl | hj
        · exact hnone
        · exact hleast j hj hjk

theorem Fits.deviation_le (h : Fits tolerance samples k p) (htol : 0 ≤ tolerance) {s : Sample Int}
    (hs : s ∈ samples) : |p.eval (s.1 : ℚ) - s.2| ≤ tolerance := by
  rw [← List.take_append_drop (k + 1) samples, List.mem_append] at hs
  rcases hs with hs | hs
  · rwa [h.interpolates.passes s hs, sub_self, abs_zero]
  · exact h.close s hs

theorem Fits.nodup (h : Fits tolerance samples k p) : ((samples.take (k + 1)).map Prod.fst).Nodup :=
  nodup_of_unique h.interpolates fun q => (h.only q).mp

/-- A polynomial of a smaller degree fits at its own degree already. -/
theorem Fits.at_degree (h : Fits tolerance samples k p) (htol : 0 ≤ tolerance) (hk : k < samples.length)
    (hle : p.natDegree ≤ k) : Fits tolerance samples p.natDegree p := by
  have htake : (samples.take (k + 1)).take (p.natDegree + 1) = samples.take (p.natDegree + 1) := by
    rw [List.take_take, min_eq_left (by omega)]
  have hp : Interpolates p (samples.take (p.natDegree + 1)) := by
    rw [← htake]
    exact h.interpolates.take (by rw [List.length_take_of_le hk]; omega) le_rfl
  have hnodup : ((samples.take (p.natDegree + 1)).map Prod.fst).Nodup := by
    rw [← htake]
    exact h.nodup.sublist ((List.take_sublist _ _).map _)
  refine ⟨fun q => ⟨fun hq => hq.unique hnodup hp, fun hq => hq ▸ hp⟩, fun s hs => ?_⟩
  exact h.deviation_le htol (List.mem_of_mem_drop hs)

/-- What the exact estimate finds is of the smallest order that fits, and that is its degree. -/
theorem exists_fits_of_estimate {maxPow : Int} (htol : 0 ≤ tolerance)
    (h : exactArithmetic.estimate maxPow tolerance samples = .ok (some cs)) :
    ∃ p : ℚ[X], p.natDegree ≤ maxPow ∧ p.natDegree < samples.length ∧
      Fits tolerance samples p.natDegree p ∧
      (∀ j < p.natDegree, ∀ q, ¬ Fits tolerance samples j q) ∧
      cs = trimLeading exactArithmetic.negligible (coefficients p (p.natDegree + 1)) := by
  rw [SampleArithmetic.estimate, List.range_eq_range'] at h
  obtain ⟨k, p, hk, hp, hleast, hcs⟩ := exists_fits_of_search (by omega) h
  have hle := degree_lt_succ_iff.mp (degree_lt_of_take (by omega) hp.interpolates)
  have heq : p.natDegree = k := by
    by_contra hne
    exact hleast _ (Nat.zero_le _) (by omega) p (hp.at_degree htol (by omega) hle)
  subst heq
  exact ⟨p, by omega, by omega, hp, fun j => hleast j (Nat.zero_le j), hcs⟩

/-! ## What is left out -/

/-- Without leading coefficients that round to zero a polynomial is off by what they add up to. -/
theorem Passes.of_append {dropped : List ℚ} (h : Passes tolerance (dropped ++ cs) samples)
    (hdropped : ∀ c ∈ dropped, RoundsToZero c) {s : Sample Int} (hs : s ∈ samples) :
    |horner cs (s.1 : ℚ) - s.2| ≤ tolerance +
      1 / 2000000 * ∑ i ∈ Finset.Ico cs.length (dropped ++ cs).length, |(s.1 : ℚ)| ^ i := by
  have hsmall : ∀ c ∈ dropped, |c| ≤ 1 / 2000000 := by
    intro c hc
    have hround := roundsToZero_iff.mp (hdropped c hc)
    linarith
  have hfull := h s hs
  rw [horner_append] at hfull
  have hsplit : horner cs (s.1 : ℚ) - s.2 =
      (horner dropped (s.1 : ℚ) * (s.1 : ℚ) ^ cs.length + horner cs (s.1 : ℚ) - s.2) -
        horner dropped (s.1 : ℚ) * (s.1 : ℚ) ^ cs.length := by ring
  calc |horner cs (s.1 : ℚ) - s.2|
      ≤ tolerance + |horner dropped (s.1 : ℚ)| * |(s.1 : ℚ)| ^ cs.length := by
        rw [hsplit]
        refine (abs_sub _ _).trans ?_
        rw [abs_mul, abs_pow]
        gcongr
    _ ≤ tolerance + (1 / 2000000 * ∑ i ∈ Finset.range dropped.length, |(s.1 : ℚ)| ^ i) *
          |(s.1 : ℚ)| ^ cs.length := by
        gcongr
        exact abs_horner_le hsmall _
    _ = tolerance + 1 / 2000000 *
          ∑ i ∈ Finset.Ico cs.length (dropped ++ cs).length, |(s.1 : ℚ)| ^ i := by
        rw [Finset.sum_Ico_eq_sum_range, List.length_append, Nat.add_sub_cancel, mul_assoc, Finset.sum_mul]
        simp only [pow_add, mul_comm]

/-- The order is the degree if the leading coefficient does not round to zero. -/
theorem degree_trimLeading (h : ¬ RoundsToZero p.leadingCoeff) :
    RandomAccess.degree (trimLeading exactArithmetic.negligible (coefficients p (p.natDegree + 1))) =
      p.natDegree := by
  have hlead : exactArithmetic.negligible (p.coeff p.natDegree) = false := by
    rw [negligible_eq]
    exact decide_eq_false h
  rw [coefficients_succ, trimLeading_cons hlead, RandomAccess.degree, List.length_cons, length_coefficients]
  omega

/-- The exact estimate has as many coefficients as its order asks for, and its order is within the bound and
below the number of samples. It is what is left of the polynomial of the smallest degree that fits, without
leading coefficients that round to zero, and it is off by no more than these add up to. If its order is the
degree of that polynomial it passes through all samples. This is so if the leading coefficient does not
round to zero, and if the lengths of the samples that the polynomial was computed from are close to each
other. -/
theorem estimate_passes {maxPow : Int} (htol : 0 ≤ tolerance)
    (h : exactArithmetic.estimate maxPow tolerance samples = .ok (some cs)) :
    (cs.length : Int) = RandomAccess.degree cs + 1 ∧ 0 ≤ RandomAccess.degree cs ∧
      RandomAccess.degree cs ≤ maxPow ∧ RandomAccess.degree cs < samples.length ∧
      ∃ p : ℚ[X], Fits tolerance samples p.natDegree p ∧
        (∀ j < p.natDegree, ∀ q, ¬ Fits tolerance samples j q) ∧
        cs = trimLeading (fun c => decide (RoundsToZero c)) (coefficients p (p.natDegree + 1)) ∧
        (∀ s ∈ samples, |horner cs (s.1 : ℚ) - s.2| ≤
          tolerance + 1 / 2000000 * ∑ i ∈ Finset.Ico cs.length (p.natDegree + 1), |(s.1 : ℚ)| ^ i) ∧
        (RandomAccess.degree cs = p.natDegree → Passes tolerance cs samples) ∧
        (¬ RoundsToZero p.leadingCoeff ∨
            |spread ((samples.take (p.natDegree + 1)).map Prod.fst)| < 2000000 →
          RandomAccess.degree cs = p.natDegree) := by
  obtain ⟨p, hpow, hlt, hfits, hleast, hcs⟩ := exists_fits_of_estimate htol h
  obtain ⟨dropped, hdropped, happend⟩ :=
    exists_trimLeading exactArithmetic.negligible (coefficients p (p.natDegree + 1))
  rw [← hcs] at happend
  have hpos : 0 < cs.length := by
    rw [hcs, List.length_pos_iff, coefficients_succ]
    exact trimLeading_ne_nil (List.cons_ne_nil _ _)
  have hlen : (dropped ++ cs).length = p.natDegree + 1 := by rw [happend, length_coefficients]
  have hle : cs.length ≤ p.natDegree + 1 := by
    rw [← hlen, List.length_append]
    exact Nat.le_add_left _ _
  have hpasses : Passes tolerance (dropped ++ cs) samples := by
    intro s hs
    rw [happend, horner_coefficients (degree_lt_of_take hlt hfits.interpolates)]
    exact hfits.deviation_le htol hs
  have hbound : ∀ s ∈ samples, |horner cs (s.1 : ℚ) - s.2| ≤
      tolerance + 1 / 2000000 * ∑ i ∈ Finset.Ico cs.length (p.natDegree + 1), |(s.1 : ℚ)| ^ i := by
    intro s hs
    rw [← hlen]
    exact hpasses.of_append (by simpa [negligible_eq] using hdropped) hs
  have hdegree : RandomAccess.degree cs = (cs.length : Int) - 1 := rfl
  refine ⟨by omega, by omega, by omega, by omega, p, hfits, hleast, negligible_eq ▸ hcs, hbound, ?_, ?_⟩
  · intro hfull s hs
    have hs := hbound s hs
    rwa [Finset.Ico_eq_empty_of_le (by omega), Finset.sum_empty, mul_zero, add_zero] at hs
  · rintro (hlead | hspread)
    · rw [hcs, degree_trimLeading hlead]
    · rcases Nat.eq_zero_or_pos p.natDegree with hzero | hnatDegree
      · omega
      · rw [hcs, degree_trimLeading]
        intro hlead
        have hcoeff := hfits.interpolates.coeff_eq_zero hfits.nodup hspread hlead
        rw [coeff_natDegree, leadingCoeff_eq_zero] at hcoeff
        simp [hcoeff] at hnatDegree

/-- The measurements of a linear program, at lengths that are close to each other. -/
theorem estimate_passes_linear :
    exactArithmetic.estimate 5 (1 / 1000000) [(1, 5), (2, 14), (3, 23), (5, 41)] = .ok (some [9, -4]) ∧
      Passes (1 / 1000000) [9, -4] [(1, 5), (2, 14), (3, 23), (5, 41)] := by
  have h : exactArithmetic.estimate 5 (1 / 1000000) [(1, 5), (2, 14), (3, 23), (5, 41)] =
      .ok (some [9, -4]) := by decide +kernel
  obtain ⟨-, -, -, -, p, -, -, -, -, hpasses, hdegree⟩ := estimate_passes (by norm_num) h
  refine ⟨h, hpasses (hdegree (Or.inr ?_))⟩
  -- the differences of the lengths of up to three samples, or of all
  generalize p.natDegree = n
  rcases n with _ | _ | _ | n
  · decide
  · decide
  · decide
  · rw [List.take_of_length_le (by simp)]
    decide

/-- Samples on a line that rises slowly: the slope is left out, and the constant that remains misses two of
them. -/
theorem estimate_misses :
    exactArithmetic.estimate 5 (1 / 1000000) [(0, 0), (5000000, 2), (10000000, 4)] = .ok (some [0]) ∧
      ¬ Passes (1 / 1000000) [0] [(0, 0), (5000000, 2), (10000000, 4)] := by
  constructor
  · decide +kernel
  · decide +kernel

end RandomAccess

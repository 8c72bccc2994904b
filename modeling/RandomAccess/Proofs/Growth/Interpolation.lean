import RandomAccess.Growth.Estimate
import RandomAccess.Proofs.Except
import RandomAccess.Proofs.Growth.Elimination

/-!
# Growth estimates and interpolation

Samples at different lengths have one polynomial of a degree below their number that passes through all of
them. Computed exactly and without tolerance, the estimate tries the polynomials through the first one, two
and so on samples; each of these systems has one solution. A polynomial of too small a degree misses one of
the other samples, so the first that passes through all of them is the one polynomial, tried at its own
degree.
-/

namespace RandomAccess

open Polynomial

/-! ## Coefficients -/

section Coefficients

variable {p : ℚ[X]} {n : Nat} {x : ℚ}

/-- The lowest `n` coefficients, the leading one first. -/
def coefficients (p : ℚ[X]) (n : Nat) : List ℚ := (List.range n).reverse.map p.coeff

theorem coefficients_succ (p : ℚ[X]) (n : Nat) : coefficients p (n + 1) = p.coeff n :: coefficients p n := by
  simp [coefficients, List.range_succ]

theorem length_coefficients (p : ℚ[X]) (n : Nat) : (coefficients p n).length = n := by simp [coefficients]

theorem horner_eq (cs : List ℚ) (x : ℚ) : horner cs x = cs.foldl (fun y c => y * x + c) 0 := rfl

theorem horner_cons (c : ℚ) (cs : List ℚ) (x : ℚ) :
    horner (c :: cs) x = c * x ^ cs.length + horner cs x := by
  -- what was added up before is multiplied once for each coefficient that follows
  have hfold (y : ℚ) : cs.foldl (fun y c => y * x + c) y =
      y * x ^ cs.length + cs.foldl (fun y c => y * x + c) 0 := by
    induction cs generalizing y with
    | nil => simp
    | cons d cs ih =>
        rw [List.foldl_cons, List.foldl_cons, ih, ih (0 * x + d), List.length_cons]
        ring
  rw [horner_eq, List.foldl_cons, hfold, horner_eq]
  ring

theorem horner_coefficients (hp : p.degree < n) (x : ℚ) : horner (coefficients p n) x = p.eval x := by
  have hsum : horner (coefficients p n) x = ∑ i ∈ Finset.range n, p.coeff i * x ^ i := by
    clear hp
    induction n with
    | zero => rfl
    | succ n ih => rw [coefficients_succ, horner_cons, length_coefficients, ih, Finset.sum_range_succ, add_comm]
  rcases eq_or_ne p 0 with rfl | h₀
  · simp [hsum]
  · rw [hsum, eval_eq_sum_range' ((natDegree_lt_iff_degree_lt h₀).mpr hp)]

/-- Every list of coefficients is that of a polynomial. -/
theorem exists_coefficients (cs : List ℚ) :
    ∃ p : ℚ[X], p.degree < cs.length ∧ coefficients p cs.length = cs := by
  induction cs with
  | nil => exact ⟨0, by simp, rfl⟩
  | cons c cs ih =>
      obtain ⟨p, hp, hcs⟩ := ih
      have hzero := (degree_lt_iff_coeff_zero p _).mp hp
      refine ⟨C c * X ^ cs.length + p, ?_, ?_⟩
      · rw [degree_lt_iff_coeff_zero]
        intro m hm
        rw [List.length_cons] at hm
        rw [coeff_add, coeff_C_mul_X_pow, if_neg (by omega), hzero m (by omega), add_zero]
      · rw [List.length_cons, coefficients_succ, coeff_add, coeff_C_mul_X_pow, if_pos rfl, hzero _ le_rfl,
          add_zero]
        refine congrArg (c :: ·) (Eq.trans ?_ hcs)
        refine List.map_congr_left fun i hi => ?_
        have hlt : i < cs.length := by simpa using hi
        rw [coeff_add, coeff_C_mul_X_pow, if_neg hlt.ne, zero_add]

end Coefficients

/-! ## Samples -/

variable {p q : ℚ[X]} {samples : List (Sample Int)} {k : Nat}

/-- The degree is below the number of samples, and the polynomial passes through all of them. -/
structure Interpolates (p : ℚ[X]) (samples : List (Sample Int)) : Prop where
  degree_lt : p.degree < samples.length
  passes : ∀ s ∈ samples, p.eval (s.1 : ℚ) = s.2

section

variable (h : (samples.map Prod.fst).Nodup)
include h

theorem injOn_samples : Set.InjOn (fun s : Sample Int => (s.1 : ℚ)) samples.toFinset := by
  intro s hs t ht hst
  refine List.inj_on_of_nodup_map h (List.mem_toFinset.mp hs) (List.mem_toFinset.mp ht) ?_
  exact Int.cast_injective hst

theorem card_samples : samples.toFinset.card = samples.length :=
  List.toFinset_card_of_nodup (.of_map _ h)

theorem exists_interpolates : ∃ p, Interpolates p samples := by
  refine ⟨Lagrange.interpolate samples.toFinset (fun s => (s.1 : ℚ)) (fun s => (s.2 : ℚ)), ?_, ?_⟩
  · rw [← card_samples h]
    exact Lagrange.degree_interpolate_lt _ (injOn_samples h)
  · intro s hs
    exact Lagrange.eval_interpolate_at_node _ (injOn_samples h) (List.mem_toFinset.mpr hs)

theorem Interpolates.unique (hp : Interpolates p samples) (hq : Interpolates q samples) : p = q := by
  have hcard := card_samples h
  refine eq_of_degrees_lt_of_eval_index_eq samples.toFinset (injOn_samples h) ?_ ?_ fun s hs => ?_
  · rw [hcard]
    exact hp.degree_lt
  · rw [hcard]
    exact hq.degree_lt
  · rw [List.mem_toFinset] at hs
    rw [hp.passes s hs, hq.passes s hs]

end

theorem degree_lt_succ_iff : p.degree < (k + 1 : ℕ) ↔ p.natDegree ≤ k := by
  rw [degree_lt_iff_coeff_zero, natDegree_le_iff_coeff_eq_zero]
  rfl

theorem Interpolates.take (hp : Interpolates p samples) (hk : k < samples.length) (hle : p.natDegree ≤ k) :
    Interpolates p (samples.take (k + 1)) where
  degree_lt := by
    rw [List.length_take_of_le hk]
    exact degree_lt_succ_iff.mpr hle
  passes s hs := hp.passes s (List.mem_of_mem_take hs)

theorem Interpolates.of_take (hp : Interpolates p (samples.take k))
    (hall : ∀ s ∈ samples.drop k, p.eval (s.1 : ℚ) = s.2) : Interpolates p samples where
  degree_lt := hp.degree_lt.trans_le (by exact_mod_cast List.length_take_le' k samples)
  passes s hs := by
    rw [← List.take_append_drop k samples, List.mem_append] at hs
    exact hs.elim (hp.passes s) (hall s)

/-! ## Systems -/

/-- The equation of a sample for the coefficients of a polynomial of degree `k`. -/
def equation (k : Nat) (s : Sample Int) : Equation ℚ where
  coefs := (List.range (k + 1)).reverse.map fun j => (s.1 : ℚ) ^ j
  right := s.2

theorem system_eq (k : Nat) (samples : List (Sample Int)) :
    exactArithmetic.system k samples = .ok (samples.map (equation k)) := by
  have hpowers (s : Sample Int) : (List.range (k + 1)).reverse.mapM (exactArithmetic.pow s.1) =
      .ok ((List.range (k + 1)).reverse.map fun j => s.1 ^ j) := mapM_ok _ _
  have hentries (r : List Int) : r.mapM exactArithmetic.toEntry = .ok (r.map Int.cast) := mapM_ok _ _
  have hrights : samples.mapM (fun s => exactArithmetic.toEntry s.2) = .ok (samples.map fun s => (s.2 : ℚ)) :=
    mapM_ok _ _
  simp only [SampleArithmetic.system, hpowers, hentries, hrights, mapM_ok, ok_bind,
    List.zipWith_map_left, List.zipWith_map_right, List.zipWith_self]
  refine congrArg Except.ok (List.map_congr_left fun s _ => ?_)
  simp [equation]

theorem dot_powers (cs : List ℚ) (x : ℚ) :
    Equation.dot ((List.range cs.length).reverse.map fun j => x ^ j) cs = horner cs x := by
  induction cs with
  | nil => rfl
  | cons c cs ih =>
      rw [List.length_cons, List.range_succ, List.reverse_append, List.reverse_singleton,
        List.singleton_append, List.map_cons, Equation.dot_cons, List.headD_cons, List.tail_cons, ih,
        horner_cons, mul_comm]

theorem holds_equation {s : Sample Int} {cs : List ℚ} (hcs : cs.length = k + 1) :
    (equation k s).Holds cs ↔ horner cs (s.1 : ℚ) = s.2 := by
  rw [← dot_powers, hcs]
  rfl

theorem square_equations (hk : samples.length = k + 1) : Equation.Square (samples.map (equation k)) := by
  intro e he
  obtain ⟨s, -, rfl⟩ := List.mem_map.mp he
  simp [equation, hk]

/-- The solutions are the coefficients of the polynomials through the samples. -/
theorem solves_equations_iff (hk : samples.length = k + 1) {cs : List ℚ} :
    Equation.Solves (samples.map (equation k)) cs ↔
      ∃ p, Interpolates p samples ∧ coefficients p (k + 1) = cs := by
  constructor
  · rintro ⟨hlen, hcs⟩
    rw [List.length_map, hk] at hlen
    obtain ⟨p, hp, hcoefs⟩ := exists_coefficients cs
    refine ⟨p, ⟨by rwa [hk, ← hlen], fun s hs => ?_⟩, by rw [← hlen, hcoefs]⟩
    rw [← horner_coefficients hp, hcoefs, ← holds_equation hlen]
    exact hcs _ (List.mem_map_of_mem hs)
  · rintro ⟨p, hp, rfl⟩
    refine ⟨by rw [length_coefficients, List.length_map, hk], fun e he => ?_⟩
    obtain ⟨s, hs, rfl⟩ := List.mem_map.mp he
    rw [holds_equation (length_coefficients p _), horner_coefficients (by rw [← hk]; exact hp.degree_lt)]
    exact hp.passes s hs

theorem eq_of_coefficients {n : Nat} (hp : p.degree < n) (hq : q.degree < n)
    (h : coefficients p n = coefficients q n) : p = q := by
  refine Polynomial.funext fun x => ?_
  rw [← horner_coefficients hp, h, horner_coefficients hq]

/-- As many samples as coefficients have a solution if and only if one polynomial alone passes through
them. -/
theorem solve_equations_iff (hk : samples.length = k + 1) {cs : List ℚ} :
    Equation.solve (samples.map (equation k)) = some cs ↔
      ∃ p, (∀ q, Interpolates q samples ↔ q = p) ∧ coefficients p (k + 1) = cs := by
  rw [Equation.solve_eq_some_iff (square_equations hk)]
  simp only [solves_equations_iff hk]
  constructor
  · intro h
    obtain ⟨p, hp, rfl⟩ := (h cs).mpr rfl
    refine ⟨p, fun q => ⟨fun hq => ?_, fun hq => hq ▸ hp⟩, rfl⟩
    exact eq_of_coefficients (hk ▸ hq.degree_lt) (hk ▸ hp.degree_lt) ((h _).mp ⟨q, hq, rfl⟩)
  · rintro ⟨p, hp, rfl⟩ ys
    constructor
    · rintro ⟨q, hq, rfl⟩
      rw [(hp q).mp hq]
    · rintro rfl
      exact ⟨p, (hp p).mpr rfl, rfl⟩

/-! ## The search -/

theorem agrees_eq (tolerance : ℚ) (cs : List ℚ) (samples : List (Sample Int)) :
    exactArithmetic.agrees tolerance cs samples =
      .ok (samples.all fun s => decide (|horner cs (s.1 : ℚ) - s.2| ≤ tolerance)) := by
  induction samples with
  | nil => rfl
  | cons s samples ih =>
      have hdev : exactArithmetic.deviation cs s = .ok |horner cs (s.1 : ℚ) - s.2| :=
        congrArg Except.ok (Scalar.abs_rat _)
      rw [SampleArithmetic.agrees, hdev, ok_bind, ih, List.all_cons]
      by_cases hs : |horner cs (s.1 : ℚ) - s.2| ≤ tolerance
      · rw [if_pos ((Scalar.le_rat _ _).mpr hs), decide_eq_true hs, Bool.true_and]
      · rw [if_neg ((Scalar.le_rat _ _).not.mpr hs), decide_eq_false hs, Bool.false_and]
        rfl

/-- One polynomial alone passes through the first samples, and it comes close to the others. -/
structure Fits (tolerance : ℚ) (samples : List (Sample Int)) (k : Nat) (p : ℚ[X]) : Prop where
  only : ∀ q, Interpolates q (samples.take (k + 1)) ↔ q = p
  close : ∀ s ∈ samples.drop (k + 1), |p.eval (s.1 : ℚ) - s.2| ≤ tolerance

theorem Fits.interpolates {tolerance : ℚ} (h : Fits tolerance samples k p) :
    Interpolates p (samples.take (k + 1)) := (h.only p).mpr rfl

theorem degree_lt_of_take (hk : k < samples.length) (hp : Interpolates p (samples.take (k + 1))) :
    p.degree < (k + 1 : ℕ) := by
  have hdegree := hp.degree_lt
  rwa [List.length_take_of_le hk] at hdegree

theorem search_of_fits {tolerance : ℚ} (hk : k < samples.length) (h : Fits tolerance samples k p)
    (orders : List Nat) :
    exactArithmetic.search tolerance samples (k :: orders) =
      .ok (some (trimLeading exactArithmetic.negligible (coefficients p (k + 1)))) := by
  have hsolve := (solve_equations_iff (List.length_take_of_le hk)).mpr ⟨p, h.only, rfl⟩
  have hclose : ((samples.drop (k + 1)).all fun s =>
      decide (|horner (coefficients p (k + 1)) (s.1 : ℚ) - s.2| ≤ tolerance)) = true := by
    simpa [horner_coefficients (degree_lt_of_take hk h.interpolates)] using h.close
  rw [SampleArithmetic.search, system_eq, ok_bind, hsolve]
  simp only [agrees_eq, ok_bind, hclose]
  rfl

theorem search_of_not_fits {tolerance : ℚ} (hk : k < samples.length)
    (h : ∀ p, ¬ Fits tolerance samples k p) (orders : List Nat) :
    exactArithmetic.search tolerance samples (k :: orders) =
      exactArithmetic.search tolerance samples orders := by
  rw [SampleArithmetic.search, system_eq, ok_bind]
  split
  · rfl
  · rename_i cs hsolve
    obtain ⟨p, hp, rfl⟩ := (solve_equations_iff (List.length_take_of_le hk)).mp hsolve
    have hdegree := degree_lt_of_take hk ((hp p).mpr rfl)
    simp only [agrees_eq, ok_bind, horner_coefficients hdegree, List.all_eq_true, decide_eq_true_eq]
    exact if_neg fun hclose => h p ⟨hp, hclose⟩

theorem search_cons (h : (samples.map Prod.fst).Nodup) (hp : Interpolates p samples)
    (hk : k < samples.length) (orders : List Nat) :
    exactArithmetic.search 0 samples (k :: orders) =
      if p.natDegree ≤ k then .ok (some (trimLeading exactArithmetic.negligible (coefficients p (k + 1))))
      else exactArithmetic.search 0 samples orders := by
  have hnodup : ((samples.take (k + 1)).map Prod.fst).Nodup := h.sublist ((List.take_sublist _ _).map _)
  split
  · rename_i hle
    have htake := hp.take hk hle
    refine search_of_fits hk ⟨fun q => ⟨fun hq => hq.unique hnodup htake, fun hq => hq ▸ htake⟩, ?_⟩ orders
    intro s hs
    rw [hp.passes s (List.mem_of_mem_drop hs), sub_self, abs_zero]
  · rename_i hle
    refine search_of_not_fits hk (fun q hq => hle ?_) orders
    -- without tolerance it is the polynomial through all samples
    have hall := hq.interpolates.of_take fun s hs => sub_eq_zero.mp (abs_nonpos_iff.mp (hq.close s hs))
    rw [hp.unique h hall, ← degree_lt_succ_iff]
    exact degree_lt_of_take hk hq.interpolates

/-- The orders are tried one after the other, up to the degree of the polynomial. -/
theorem search_eq (h : (samples.map Prod.fst).Nodup) (hp : Interpolates p samples) {orders : List Nat}
    (horders : ∀ k ∈ orders, k < samples.length) :
    exactArithmetic.search 0 samples orders = .ok ((orders.find? (p.natDegree ≤ ·)).map fun k =>
      trimLeading exactArithmetic.negligible (coefficients p (k + 1))) := by
  induction orders with
  | nil => rfl
  | cons k orders ih =>
      obtain ⟨hk, hrest⟩ := List.forall_mem_cons.mp horders
      rw [search_cons h hp hk, List.find?_cons]
      by_cases hle : p.natDegree ≤ k
      · simp [hle]
      · simp [hle, ih hrest]

theorem find?_range (d m : Nat) : (List.range m).find? (d ≤ ·) = if d < m then some d else none := by
  split
  · rename_i hd
    rw [List.find?_range_eq_some]
    simp [hd]
  · rename_i hd
    rw [List.find?_eq_none]
    intro k hk
    have hlt := List.mem_range.mp hk
    simp
    omega

theorem mem_orders {maxPow : Int} (hk : k ∈ List.range (min (maxPow + 1).toNat samples.length)) :
    k ≤ maxPow ∧ k < samples.length := by
  rw [List.mem_range, lt_min_iff] at hk
  omega

theorem estimate_eq (hne : samples ≠ []) (h : (samples.map Prod.fst).Nodup) (hp : Interpolates p samples)
    (maxPow : Int) :
    exactArithmetic.estimate maxPow 0 samples =
      .ok (if maxPow < p.natDegree then none
        else some (trimLeading exactArithmetic.negligible (coefficients p (p.natDegree + 1)))) := by
  have hd : p.natDegree < samples.length := by
    obtain ⟨n, hn⟩ := Nat.exists_eq_succ_of_ne_zero (mt List.length_eq_zero_iff.mp hne)
    have hdegree := hp.degree_lt
    rw [hn] at hdegree ⊢
    exact Nat.lt_succ_of_le (degree_lt_succ_iff.mp hdegree)
  rw [SampleArithmetic.estimate, search_eq h hp fun k hk => (mem_orders hk).2, find?_range]
  by_cases hpow : maxPow < p.natDegree
  · rw [if_pos hpow, if_neg (by omega), Option.map_none]
  · rw [if_neg hpow, if_pos (by omega), Option.map_some]

/-! ## Leading coefficients -/

/-- The number rounds to zero at six decimals. -/
def RoundsToZero (c : ℚ) : Prop := roundDiv (c.num.natAbs * pow10 6) c.den = 0

instance : DecidablePred RoundsToZero := fun _ => inferInstanceAs (Decidable (_ = _))

theorem roundDiv_eq_zero_iff {num den : Nat} (hden : 0 < den) : roundDiv num den = 0 ↔ 2 * num ≤ den := by
  rw [roundDiv]
  by_cases hlt : num < den
  · rw [Nat.div_eq_of_lt hlt, Nat.mod_eq_of_lt hlt]
    split
    · omega
    · split <;> omega
  · have hpos : 0 < num / den := Nat.div_pos (not_lt.mp hlt) hden
    split
    · omega
    · split <;> omega

theorem negligible_eq : exactArithmetic.negligible = fun c => decide (RoundsToZero c) := by
  funext c
  have habs : |c| = (c.num.natAbs : ℚ) / c.den := by
    rw [Rat.abs_def, Rat.divInt_eq_div]
    rfl
  have hden : (0 : ℚ) < c.den := by exact_mod_cast c.den_pos
  have hpow : 2 * (c.num.natAbs * pow10 6) = c.num.natAbs * 2000000 := by
    rw [show pow10 6 = 1000000 from rfl]
    ring
  refine decide_eq_decide.mpr ?_
  rw [RoundsToZero, roundDiv_eq_zero_iff c.den_pos, hpow, Scalar.abs_rat, habs, div_mul_eq_mul_div,
    div_le_one hden]
  exact_mod_cast Iff.rfl

theorem trimLeading_cons {c : ℚ} {negligible : ℚ → Bool} (hc : negligible c = false) (cs : List ℚ) :
    trimLeading negligible (c :: cs) = c :: cs := by
  cases cs with
  | nil => rfl
  | cons d cs => simp [trimLeading, hc]

/-- Samples at different lengths have one interpolating polynomial. Without tolerance the exact estimate
gives nothing if its degree is beyond the bound. Otherwise it gives its coefficients, without leading ones
that round to zero; so the order is the degree if the leading coefficient does not. -/
theorem estimate_interpolates (samples : List (Sample Int)) (hne : samples ≠ [])
    (h : (samples.map Prod.fst).Nodup) (maxPow : Int) :
    ∃ p : ℚ[X], (∀ q, Interpolates q samples ↔ q = p) ∧
      (maxPow < p.natDegree → exactArithmetic.estimate maxPow 0 samples = .ok none) ∧
      (p.natDegree ≤ maxPow → ∃ cs, exactArithmetic.estimate maxPow 0 samples = .ok (some cs) ∧
        cs = trimLeading (fun c => decide (RoundsToZero c)) (coefficients p (p.natDegree + 1)) ∧
        (¬ RoundsToZero p.leadingCoeff → RandomAccess.degree cs = p.natDegree)) := by
  obtain ⟨p, hp⟩ := exists_interpolates h
  have hest := estimate_eq hne h hp maxPow
  refine ⟨p, fun q => ⟨fun hq => hq.unique h hp, fun hq => hq ▸ hp⟩, fun hlt => ?_, fun hle => ?_⟩
  · rw [hest, if_pos hlt]
  · rw [hest, if_neg (not_lt.mpr hle), negligible_eq]
    refine ⟨_, rfl, rfl, fun hround => ?_⟩
    rw [coefficients_succ, trimLeading_cons (decide_eq_false hround), RandomAccess.degree, List.length_cons,
      length_coefficients]
    omega

/-- The measurements of a linear program. -/
theorem estimate_interpolates_linear :
    exactArithmetic.estimate 5 0 [(1, 5), (2, 14), (3, 23), (5, 41)] = .ok (some [9, -4]) ∧
      exactArithmetic.estimate 0 0 [(1, 5), (2, 14), (3, 23), (5, 41)] = .ok none := by
  have hlinear : Interpolates (C 9 * X + C (-4)) [(1, 5), (2, 14), (3, 23), (5, 41)] := by
    refine ⟨?_, ?_⟩
    · rw [degree_linear (by norm_num)]
      norm_num
    · simp
      norm_num
  have hdegree : (C 9 * X + C (-4) : ℚ[X]).natDegree = 1 := natDegree_linear (by norm_num)
  have hcoefs : coefficients (C 9 * X + C (-4)) 2 = [9, -4] := by
    simp [coefficients, List.range_succ]
  constructor
  · obtain ⟨p, hp, -, hsome⟩ := estimate_interpolates [(1, 5), (2, 14), (3, 23), (5, 41)]
      (by decide) (by decide) 5
    obtain rfl := (hp _).mp hlinear
    obtain ⟨cs, hcs, rfl, -⟩ := hsome (by rw [hdegree]; decide)
    rw [hcs, hdegree, hcoefs, trimLeading_cons (by decide)]
  · obtain ⟨p, hp, hnone, -⟩ := estimate_interpolates [(1, 5), (2, 14), (3, 23), (5, 41)]
      (by decide) (by decide) 0
    obtain rfl := (hp _).mp hlinear
    exact hnone (by rw [hdegree]; decide)

end RandomAccess

import Mathlib
import RandomAccess.Growth.LinearSystem

/-!
# Elimination over the rational numbers

Over the rational numbers elimination is exact. Subtracting multiples of the pivot from the other equations
keeps the solutions, and the first unknown is settled by the others. So a square system is solved if and
only if it has exactly one solution, and then this is the answer. Without a pivot the first unknown occurs
in no equation, and a solution would not be the only one.
-/

namespace RandomAccess

/-! ## The operations on rational numbers -/

namespace Scalar

@[simp] theorem abs_rat (x : ℚ) : abs x = |x| := by
  change (if x < 0 then -x else x) = |x|
  split
  · rename_i hx; rw [abs_of_neg hx]
  · rename_i hx; rw [abs_of_nonneg (not_lt.mp hx)]

@[simp] theorem isZero_rat (x : ℚ) : isZero x = true ↔ x = 0 := beq_iff_eq

@[simp] theorem lt_rat (x y : ℚ) : lt x y = true ↔ x < y := decide_eq_true_iff

@[simp] theorem le_rat (x y : ℚ) : le x y = true ↔ x ≤ y := decide_eq_true_iff

end Scalar

namespace Equation

variable {e p first : Equation ℚ} {es rest : List (Equation ℚ)} {x : ℚ} {xs ys : List ℚ}

/-! ## Solutions -/

/-- The sum of the products of two lists, term by term. -/
def dot (as xs : List ℚ) : ℚ := (List.zipWith (· * ·) as xs).sum

def Holds (e : Equation ℚ) (xs : List ℚ) : Prop := dot e.coefs xs = e.right

/-- There are as many unknowns as equations. -/
def Square (es : List (Equation ℚ)) : Prop := ∀ e ∈ es, e.coefs.length = es.length

/-- The numbers, one for each equation, solve the system. -/
structure Solves (es : List (Equation ℚ)) (xs : List ℚ) : Prop where
  length_eq : xs.length = es.length
  holds : ∀ e ∈ es, e.Holds xs

theorem dot_cons (as : List ℚ) (x : ℚ) (xs : List ℚ) :
    dot as (x :: xs) = as.headD 0 * x + dot as.tail xs := by
  cases as with
  | nil => simp [dot]
  | cons a as => simp [dot]

theorem holds_cons : e.Holds (x :: xs) ↔ e.lead * x + dot e.coefs.tail xs = e.right := by
  rw [Holds, dot_cons]
  rfl

/-! ## One step of elimination -/

theorem resolve_eq (e : Equation ℚ) (xs : List ℚ) :
    e.resolve xs = (e.right - dot e.coefs.tail xs) / e.lead := by
  have hfold (l : List ℚ) (r : ℚ) : l.foldl (· - ·) r = r - l.sum := by
    induction l generalizing r with
    | nil => simp
    | cons a l ih => rw [List.foldl_cons, ih, List.sum_cons, sub_sub]
  exact congrArg (· / e.lead) (hfold _ e.right)

theorem holds_cons_iff_resolve (hp : p.lead ≠ 0) : p.Holds (x :: xs) ↔ x = p.resolve xs := by
  rw [holds_cons, resolve_eq, eq_div_iff hp, eq_sub_iff_add_eq, mul_comm]

theorem dot_eliminate {as ps : List ℚ} (f : ℚ) (ha : as.length = xs.length) (hp : ps.length = xs.length) :
    dot (List.zipWith (fun a p => a - f * p) as ps) xs = dot as xs - f * dot ps xs := by
  induction xs generalizing as ps with
  | nil => simp [dot]
  | cons x xs ih =>
      obtain ⟨a, as, rfl⟩ := List.exists_cons_of_length_eq_add_one ha
      obtain ⟨q, ps, rfl⟩ := List.exists_cons_of_length_eq_add_one hp
      rw [List.zipWith_cons_cons, dot_cons, dot_cons, dot_cons, List.headD_cons, List.headD_cons,
        List.headD_cons, List.tail_cons, List.tail_cons, List.tail_cons,
        ih (Nat.succ.inj ha) (Nat.succ.inj hp)]
      ring

/-- What is left of an equation holds if and only if the equation does, given the pivot. -/
theorem holds_eliminate (hp : p.lead ≠ 0) (hx : p.Holds (x :: xs)) (he : e.coefs.tail.length = xs.length)
    (hpl : p.coefs.tail.length = xs.length) : (p.eliminate e).Holds xs ↔ e.Holds (x :: xs) := by
  have hdot : dot (p.eliminate e).coefs xs =
      dot e.coefs.tail xs - e.lead / p.lead * dot p.coefs.tail xs := dot_eliminate _ he hpl
  have hright : (p.eliminate e).right = e.right - e.lead / p.lead * p.right := rfl
  have hlead : e.lead * x = e.lead / p.lead * (p.right - dot p.coefs.tail xs) := by
    rw [← holds_cons.mp hx]
    field_simp
    ring
  rw [holds_cons, Holds, hdot, hright, hlead]
  constructor <;> intro h <;> linarith

/-! ## The pivot -/

theorem foldl_pivot (l : List (Equation ℚ × Nat)) (best : Equation ℚ × Nat) :
    let r := l.foldl (fun best e =>
      if Scalar.lt (Scalar.abs best.1.lead) (Scalar.abs e.1.lead) then e else best) best
    r ∈ best :: l ∧ ∀ e ∈ best :: l, |e.1.lead| ≤ |r.1.lead| := by
  induction l generalizing best with
  | nil => simp
  | cons e l ih =>
      -- the better of the first two goes on, and the other one is not better than it
      rw [List.foldl_cons]
      simp only [Scalar.lt_rat, Scalar.abs_rat] at ih ⊢
      split
      · rename_i hlt
        obtain ⟨hmem, hle⟩ := ih e
        refine ⟨.tail best hmem, fun d hd => ?_⟩
        rcases List.mem_cons.mp hd with rfl | hd
        · exact hlt.le.trans (hle e (.head l))
        · exact hle d hd
      · rename_i hlt
        obtain ⟨hmem, hle⟩ := ih best
        refine ⟨?_, fun d hd => ?_⟩
        · rcases List.mem_cons.mp hmem with h | h
          · rw [h]
            exact .head _
          · exact .tail best (.tail e h)
        · rcases List.mem_cons.mp hd with rfl | hd
          · exact hle d (.head l)
          · rcases List.mem_cons.mp hd with rfl | hd
            · exact (not_lt.mp hlt).trans (hle best (.head l))
            · exact hle d (.tail best hd)

theorem getElem?_pivot (first : Equation ℚ) (rest : List (Equation ℚ)) :
    (first :: rest)[(pivot first rest).2]? = some (pivot first rest).1 := by
  have hmem : pivot first rest ∈ (first :: rest).zipIdx := (foldl_pivot (rest.zipIdx 1) (first, 0)).1
  exact List.mk_mem_zipIdx_iff_getElem?.mp hmem

/-- No leading coefficient is greater than that of the pivot. -/
theorem lead_le_pivot (he : e ∈ first :: rest) : |e.lead| ≤ |(pivot first rest).1.lead| := by
  obtain ⟨i, hi⟩ := List.mem_iff_getElem?.mp he
  exact (foldl_pivot (rest.zipIdx 1) (first, 0)).2 (e, i) (List.mk_mem_zipIdx_iff_getElem?.mpr hi)

/-- The pivot and the equations that are left when the first one takes its place. -/
theorem perm_pivot {i : Nat} (h : (first :: rest)[i]? = some p) :
    (p :: ((first :: rest).set i first).tail).Perm (first :: rest) := by
  cases i with
  | zero =>
      obtain rfl : first = p := by simpa using h
      rfl
  | succ i =>
      rw [List.getElem?_cons_succ] at h
      obtain ⟨hi, rfl⟩ := List.getElem?_eq_some_iff.mp h
      rw [List.set_cons_succ, List.tail_cons]
      calc (rest[i] :: rest.set i first).Perm (rest[i] :: first :: rest.eraseIdx i) :=
            (List.set_perm_cons_eraseIdx hi first).cons _
        _ |>.Perm (first :: rest[i] :: rest.eraseIdx i) := .swap ..
        _ |>.Perm (first :: rest) := (List.getElem_cons_eraseIdx_perm hi).cons first

/-! ## Systems -/

/-- What is left of the system without the pivot and the first unknown. -/
def reduced (first : Equation ℚ) (rest : List (Equation ℚ)) : List (Equation ℚ) :=
  ((first :: rest).set (pivot first rest).2 first).tail.map (pivot first rest).1.eliminate

theorem solve_cons (first : Equation ℚ) (rest : List (Equation ℚ)) :
    solve (first :: rest) = if (pivot first rest).1.lead = 0 then none
      else (solve (reduced first rest)).map fun xs => (pivot first rest).1.resolve xs :: xs := by
  rw [solve]
  simp only [Scalar.isZero_rat]
  refine if_congr Iff.rfl rfl ?_
  rw [← reduced]
  cases solve (reduced first rest) with
  | none => rfl
  | some xs => rfl

theorem length_reduced (first : Equation ℚ) (rest : List (Equation ℚ)) :
    (reduced first rest).length = rest.length := by
  simp [reduced]

theorem Square.length_tail (h : Square (first :: rest)) (he : e ∈ first :: rest) :
    e.coefs.tail.length = rest.length := by
  rw [List.length_tail, h e he, List.length_cons, Nat.add_sub_cancel]

theorem Square.reduced (h : Square (first :: rest)) : Square (reduced first rest) := by
  have hperm := perm_pivot (getElem?_pivot first rest)
  intro e he
  obtain ⟨d, hd, rfl⟩ := List.mem_map.mp he
  rw [length_reduced, eliminate, List.length_zipWith, h.length_tail (hperm.subset (.tail _ hd)),
    h.length_tail (hperm.subset (.head _)), Nat.min_self]

/-- A solution of the system is a solution of what is left of it, and what the pivot gives for the first
unknown. -/
theorem solves_cons_iff (h : Square (first :: rest)) (hp : (pivot first rest).1.lead ≠ 0) :
    Solves (first :: rest) (x :: xs) ↔
      x = (pivot first rest).1.resolve xs ∧ Solves (reduced first rest) xs := by
  have hperm := perm_pivot (getElem?_pivot first rest)
  constructor
  · intro hs
    have hlen : xs.length = rest.length := Nat.succ.inj hs.length_eq
    have hpivot := hs.holds _ (hperm.subset (.head _))
    refine ⟨(holds_cons_iff_resolve hp).mp hpivot, hlen.trans (length_reduced first rest).symm, ?_⟩
    intro e he
    obtain ⟨d, hd, rfl⟩ := List.mem_map.mp he
    have hmem := hperm.subset (.tail _ hd)
    rw [holds_eliminate hp hpivot ((h.length_tail hmem).trans hlen.symm)
      ((h.length_tail (hperm.subset (.head _))).trans hlen.symm)]
    exact hs.holds d hmem
  · rintro ⟨hx, hs⟩
    have hlen : xs.length = rest.length := hs.length_eq.trans (length_reduced first rest)
    have hpivot := (holds_cons_iff_resolve hp).mpr hx
    refine ⟨congrArg Nat.succ hlen, fun e he => ?_⟩
    rcases List.mem_cons.mp (hperm.mem_iff.mpr he) with rfl | hd
    · exact hpivot
    · rw [← holds_eliminate hp hpivot ((h.length_tail he).trans hlen.symm)
        ((h.length_tail (hperm.subset (.head _))).trans hlen.symm)]
      exact hs.holds _ (List.mem_map_of_mem hd)

/-- If the first unknown occurs in no equation, nothing is the only solution. -/
theorem not_forall_solves (hp : (pivot first rest).1.lead = 0) (xs : List ℚ) :
    ¬ ∀ ys, Solves (first :: rest) ys ↔ ys = xs := by
  intro h
  have hxs := (h xs).mpr rfl
  obtain ⟨x, xs, rfl⟩ := List.exists_cons_of_length_eq_add_one hxs.length_eq
  have hother : Solves (first :: rest) ((x + 1) :: xs) := by
    refine ⟨hxs.length_eq, fun e he => ?_⟩
    have hlead : e.lead = 0 := by simpa [hp] using lead_le_pivot he
    have hx := hxs.holds e he
    rw [holds_cons, hlead, zero_mul] at hx ⊢
    exact hx
  have heq := (h _).mp hother
  simp at heq

/-- With a pivot, the only solution comes from the only solution of what is left. -/
theorem forall_solves_cons_iff (h : Square (first :: rest)) (hp : (pivot first rest).1.lead ≠ 0) :
    (∀ ys, Solves (first :: rest) ys ↔ ys = xs) ↔
      ∃ zs, (∀ ys, Solves (reduced first rest) ys ↔ ys = zs) ∧ (pivot first rest).1.resolve zs :: zs = xs := by
  constructor
  · intro hs
    have hxs := (hs xs).mpr rfl
    obtain ⟨x, zs, rfl⟩ := List.exists_cons_of_length_eq_add_one hxs.length_eq
    obtain ⟨rfl, hzs⟩ := (solves_cons_iff h hp).mp hxs
    refine ⟨zs, fun ys => ⟨fun hys => ?_, fun hys => hys ▸ hzs⟩, rfl⟩
    have heq := (hs _).mp ((solves_cons_iff h hp).mpr ⟨rfl, hys⟩)
    exact (List.cons.inj heq).2
  · rintro ⟨zs, hzs, rfl⟩ ys
    cases ys with
    | nil => exact ⟨fun hs => absurd hs.length_eq (by simp), nofun⟩
    | cons y ys =>
        rw [solves_cons_iff h hp, hzs, List.cons.injEq]
        exact and_congr_left fun hys => by rw [hys]

theorem solves_nil_iff : Solves [] xs ↔ xs = [] :=
  ⟨fun h => List.eq_nil_of_length_eq_zero h.length_eq, fun h => ⟨congrArg List.length h, nofun⟩⟩

/-- A square system is solved if and only if it has exactly one solution. -/
theorem solve_eq_some_iff (h : Square es) : solve es = some xs ↔ ∀ ys, Solves es ys ↔ ys = xs := by
  -- each step leaves a square system with one equation less
  induction hn : es.length generalizing es xs with
  | zero =>
      obtain rfl := List.eq_nil_of_length_eq_zero hn
      simp only [solve, solves_nil_iff, Option.some.injEq]
      constructor
      · rintro rfl ys
        rfl
      · intro hs
        exact (hs []).mp rfl
  | succ n ih =>
      obtain ⟨first, rest, rfl⟩ := List.exists_cons_of_length_eq_add_one hn
      have hlen : (reduced first rest).length = n := by
        rw [length_reduced]
        exact Nat.succ.inj hn
      rw [solve_cons]
      by_cases hp : (pivot first rest).1.lead = 0
      · rw [if_pos hp]
        simpa using not_forall_solves hp xs
      · rw [if_neg hp, Option.map_eq_some_iff, forall_solves_cons_iff h hp]
        simp only [ih h.reduced hlen]

end Equation
end RandomAccess

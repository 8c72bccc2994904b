import Mathlib.Algebra.Group.Nat.Defs
import RandomAccess.Proofs.Registers.Recall

/-!
# How much storage registers take

The array behind the registers grows when an index beyond its end is written, to at least twice its size.
So after any requests it is at most twice as long as the part in use, all cells past that part are zero,
and every time it grew counts for a factor of two in its size.
-/

namespace RandomAccess.Registers

/-! ## Enlargements -/

/-- The registers after a request, and how often they were enlarged since the last reset. -/
def tally (t : Registers × Nat) (q : Request) : Registers × Nat :=
  match q with
  | .reset => ((q.run t.1).1, 0)
  | q => ((q.run t.1).1, if t.1.size < (q.run t.1).1.size then t.2 + 1 else t.2)

/-- How many of the requests since the last reset enlarged the array behind the registers. -/
def enlargements (requests : List Request) : Nat := (requests.foldl tally ({}, 0)).2

theorem tally_eq {q : Request} (t : Registers × Nat) (hq : q ≠ .reset) :
    tally t q = ((q.run t.1).1, if t.1.size < (q.run t.1).1.size then t.2 + 1 else t.2) := by
  cases q with
  | reset => exact absurd rfl hq
  | _ => rfl

theorem tally_fst (t : Registers × Nat) (q : Request) : (tally t q).1 = (q.run t.1).1 := by
  cases q <;> rfl

theorem foldl_tally_fst (requests : List Request) (t : Registers × Nat) :
    (requests.foldl tally t).1 = requests.foldl (fun r q => (q.run r).1) t.1 := by
  induction requests generalizing t with
  | nil => rfl
  | cons q requests ih => rw [List.foldl_cons, List.foldl_cons, ih, tally_fst]

/-! ## One request -/

variable {r : Registers} {j : Journal} {g : Nat}

theorem size_reserve (cells : Array Int) (k : Nat) :
    (reserve cells k).size = if k < cells.size then cells.size else max (k + 1) (2 * cells.size) := by
  rw [reserve]
  by_cases hk : k < cells.size
  · rw [if_pos hk, if_pos hk]
  · rw [if_neg hk, if_neg hk, Array.size_append, Array.size_replicate]
    omega

theorem size_put (r : Registers) (k : Nat) (v : Int) :
    (r.put k v).size = if k < r.size then r.size else max (k + 1) (2 * r.size) := by
  rw [size, put, Array.size_setIfInBounds]
  exact size_reserve r.cells k

/-- One more than the highest index in the journal, zero without any. -/
def Journal.extent (j : Journal) : Nat := (j.map Prod.fst).max?.elim 0 (· + 1)

theorem Journal.extent_cons (k : Nat) (v : Int) (j : Journal) :
    Journal.extent ((k, v) :: j) = max j.extent (k + 1) := by
  rw [extent, extent, List.map_cons, List.max?_cons]
  cases (j.map Prod.fst).max? with
  | none => simp
  | some n => simp only [Option.elim_some]; omega

/-- The array behind the registers is used up to the highest index in the journal, and has grown `g` times
without getting twice as long. -/
structure Compact (r : Registers) (j : Journal) (g : Nat) : Prop extends r.Keeps j where
  used_eq : r.used = j.extent
  used_le : r.used ≤ r.size
  size_le : r.size ≤ max r.used (2 * r.used - 2)
  grown : 1 ≤ g → 2 ^ (g - 1) ≤ r.size

theorem Compact.empty : Compact {} [] 0 where
  toKeeps := .empty
  used_eq := rfl
  used_le := Nat.le_refl 0
  size_le := Nat.zero_le _
  grown := nofun

/-- A write beyond the end of the array moves its use to the index written, and at least doubles it. -/
theorem Compact.put (h : r.Compact j g) (k : Nat) (v : Int) :
    (r.put k v).Compact ((k, v) :: j) (if r.size < (r.put k v).size then g + 1 else g) where
  toKeeps := h.toKeeps.put k v
  used_eq := by rw [Journal.extent_cons, ← h.used_eq]; rfl
  used_le := by
    have hle := h.used_le
    have hused : (r.put k v).used = max r.used (k + 1) := rfl
    rw [size_put, hused]
    split <;> omega
  size_le := by
    have hle := h.used_le
    have hsize := h.size_le
    have hused : (r.put k v).used = max r.used (k + 1) := rfl
    rw [size_put, hused]
    split <;> omega
  grown := by
    have hgrown := h.grown
    have hsize := size_put r k v
    split
    · rename_i hlt
      intro _
      -- the first time there is at least one cell, from then on twice as many
      rcases g with _ | g
      · simp only [Nat.zero_add, Nat.sub_self, pow_zero]
        omega
      · have hpow := hgrown (by omega)
        rw [Nat.add_sub_cancel] at hpow ⊢
        rw [pow_succ]
        split at hsize <;> omega
    · rename_i hlt
      intro hg
      have hpow := hgrown hg
      split at hsize <;> omega

/-- What one request keeps. -/
theorem Compact.tally {t : Registers × Nat} (h : t.1.Compact j t.2) (q : Request) :
    (tally t q).1.Compact (j.enter q) (tally t q).2 := by
  by_cases hq : q = .reset
  · subst hq
    exact .empty
  · rw [tally_eq t hq, j.enter_eq hq]
    rcases run_cases h.toKeeps hq with ⟨k, v, hw, hrun⟩ | ⟨hw, hrun, -⟩
    · rw [hw, hrun]
      exact h.put k v
    · rw [hw, hrun, if_neg (Nat.lt_irrefl _)]
      exact h

theorem Compact.foldl {t : Registers × Nat} (h : t.1.Compact j t.2) (requests : List Request) :
    (requests.foldl Registers.tally t).1.Compact (requests.foldl Journal.enter j)
      (requests.foldl Registers.tally t).2 := by
  induction requests generalizing t j with
  | nil => exact h
  | cons q requests ih => exact ih (h.tally q)

theorem compact_serve (requests : List Request) :
    (serve requests).Compact (.ofRequests requests) (enlargements requests) := by
  have h : Compact _ _ _ := Compact.empty.foldl (t := ({}, 0)) requests
  rwa [foldl_tally_fst] at h

/-! ## All requests -/

/-- Whatever is asked of new registers, the array behind them holds the part in use, which ends at the
highest index written since the last reset, and is at most twice as long. Past that part there are zeros.
Enlarged `g` times since the last reset, the array has at least `2 ^ (g - 1)` cells. -/
theorem serve_compact (requests : List Request) :
    (serve requests).used ≤ (serve requests).size ∧
      (serve requests).size ≤ max (serve requests).used (2 * (serve requests).used - 2) ∧
      (∀ i v, (serve requests).used ≤ i → (serve requests).cells[i]? = some v → v = 0) ∧
      (serve requests).used = (Journal.ofRequests requests).extent ∧
      (1 ≤ enlargements requests → 2 ^ (enlargements requests - 1) ≤ (serve requests).size) := by
  have h := compact_serve requests
  refine ⟨h.used_le, h.size_le, fun i v hi hv => ?_, h.used_eq, h.grown⟩
  have hcell := h.unused i hi
  rwa [cell, Array.getD_eq_getD_getElem?, hv] at hcell

/-- Four writes enlarge the array three times, and the reset forgets those before it. -/
example : enlargements [.set 40 1, .reset, .setAcc 5, .set 1 3, .set 2 7, .set 3 7] = 3 ∧
    (serve [.set 40 1, .reset, .setAcc 5, .set 1 3, .set 2 7, .set 3 7]).size = 4 := by decide +kernel

end RandomAccess.Registers

import Mathlib.Data.List.Forall2
import RandomAccess.Decimal.Power

/-! # Computations that may fail

How a sequence of computations that may fail succeeds or fails, what a fold of such a computation over a list
keeps, and where a map fails. -/

namespace RandomAccess

variable {ε α β : Type}

theorem ok_bind (a : α) (f : α → Except ε β) : (.ok a >>= f) = f a := rfl

theorem bind_eq_ok_iff {x : Except ε α} {f : α → Except ε β} {b : β} :
    (x >>= f) = .ok b ↔ ∃ a, x = .ok a ∧ f a = .ok b := by
  cases x with
  | error e =>
      constructor
      · intro h; cases h
      · rintro ⟨_, ⟨⟩, _⟩
  | ok a =>
      constructor
      · intro h; exact ⟨a, rfl, h⟩
      · rintro ⟨_, ⟨⟩, h⟩; exact h

theorem bind_eq_error_iff {x : Except ε α} {f : α → Except ε β} {e : ε} :
    (x >>= f) = .error e ↔ x = .error e ∨ ∃ a, x = .ok a ∧ f a = .error e := by
  cases x with
  | error e' =>
      constructor
      · intro h; cases h; exact Or.inl rfl
      · rintro (h | ⟨_, ⟨⟩, _⟩)
        cases h
        rfl
  | ok a =>
      constructor
      · intro h; exact Or.inr ⟨a, rfl, h⟩
      · rintro (h | ⟨_, ⟨⟩, h⟩)
        · cases h
        · exact h

/-- What one round keeps, the whole fold keeps. -/
theorem foldlM_invariant {f : β → α → Except ε β} {P : β → Prop}
    (hf : ∀ b a b', P b → f b a = .ok b' → P b') {l : List α} {b b' : β} (hb : P b)
    (h : l.foldlM f b = .ok b') : P b' := by
  induction l generalizing b with
  | nil => cases h; exact hb
  | cons a l ih =>
      rw [List.foldlM_cons, bind_eq_ok_iff] at h
      obtain ⟨b₁, h₁, h₂⟩ := h
      exact ih (hf _ _ _ hb h₁) h₂

/-! ## Maps -/

theorem mapM_eq_ok_iff {f : α → Except ε β} {l : List α} {bs : List β} :
    l.mapM f = .ok bs ↔ List.Forall₂ (fun a b => f a = .ok b) l bs := by
  induction l generalizing bs with
  | nil =>
      rw [List.mapM_nil, List.forall₂_nil_left_iff]
      exact ⟨fun h => by cases h; rfl, fun h => by rw [h]; rfl⟩
  | cons a l ih =>
      rw [List.mapM_cons, List.forall₂_cons_left_iff, bind_eq_ok_iff]
      constructor
      · rintro ⟨b, hb, h⟩
        obtain ⟨bs', hl, h⟩ := bind_eq_ok_iff.mp h
        cases h
        exact ⟨b, bs', hb, ih.mp hl, rfl⟩
      · rintro ⟨b, bs', hb, hl, rfl⟩
        exact ⟨b, hb, bind_eq_ok_iff.mpr ⟨bs', ih.mpr hl, rfl⟩⟩

theorem mapM_ok (f : α → β) (l : List α) : l.mapM (fun a => (.ok (f a) : Except ε β)) = .ok (l.map f) := by
  rw [mapM_eq_ok_iff, List.forall₂_map_right_iff, List.forall₂_same]
  exact fun _ _ => rfl

/-- A map over a list fails where it fails first. -/
theorem mapM_eq_error_iff {f : α → Except ε β} {l : List α} {e : ε} :
    l.mapM f = .error e ↔
      ∃ before a after, l = before ++ a :: after ∧ (∀ c ∈ before, ∃ b, f c = .ok b) ∧ f a = .error e := by
  induction l with
  | nil =>
      constructor
      · intro h; cases h
      · rintro ⟨before, a, after, h, -⟩
        simp at h
  | cons a l ih =>
      rw [List.mapM_cons, bind_eq_error_iff]
      constructor
      · rintro (ha | ⟨b, hb, h⟩)
        · exact ⟨[], a, l, rfl, nofun, ha⟩
        · rcases bind_eq_error_iff.mp h with hl | ⟨_, _, h⟩
          · obtain ⟨before, c, after, rfl, hbefore, hc⟩ := ih.mp hl
            refine ⟨a :: before, c, after, rfl, ?_, hc⟩
            simpa using ⟨⟨b, hb⟩, hbefore⟩
          · cases h
      · rintro ⟨before, c, after, h, hbefore, hc⟩
        cases before with
        | nil =>
            cases h
            exact Or.inl hc
        | cons d before =>
            cases h
            obtain ⟨⟨b, hb⟩, hrest⟩ := List.forall_mem_cons.mp hbefore
            refine Or.inr ⟨b, hb, bind_eq_error_iff.mpr (Or.inl ?_)⟩
            exact ih.mpr ⟨before, c, after, rfl, hrest, hc⟩

end RandomAccess

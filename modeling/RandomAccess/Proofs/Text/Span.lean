import Mathlib.Data.List.TakeWhile
import RandomAccess.Text.Blank

/-!
# Runs of characters

A text is cut in one way only into a run of characters of one kind and a rest that does not go on with
this kind.
-/

namespace RandomAccess.Text

variable {p q : Char → Bool} {a b s t : List Char}

/-- The text does not go on with a character of `p`. -/
def Ends (p : Char → Bool) (s : List Char) : Prop := ∀ c r, s = c :: r → p c = false

theorem Ends.nil : Ends p [] := nofun

theorem Ends.cons {c : Char} {r : List Char} (h : p c = false) : Ends p (c :: r) := by
  rintro _ _ ⟨⟩
  exact h

theorem Ends.head {c : Char} {r : List Char} (h : Ends p (c :: r)) : p c = false := h c r rfl

theorem Ends.mono (h : Ends q s) (hpq : ∀ c, p c = true → q c = true) : Ends p s := by
  intro c r hs
  cases hp : p c with
  | false => rfl
  | true => exact absurd (hpq c hp) (by simp [h c r hs])

theorem ends_dropWhile (p : Char → Bool) (s : List Char) : Ends p (s.dropWhile p) := by
  induction s with
  | nil => exact .nil
  | cons c r ih =>
      cases hc : p c with
      | true => rwa [List.dropWhile_cons_of_pos hc]
      | false =>
          rw [List.dropWhile_cons_of_neg (by simp [hc])]
          exact .cons hc

theorem Ends.takeWhile (h : Ends p s) : s.takeWhile p = [] := by
  cases s with
  | nil => rfl
  | cons c r => exact List.takeWhile_cons_of_neg (by simp [h.head])

theorem Ends.dropWhile (h : Ends p s) : s.dropWhile p = s := by
  cases s with
  | nil => rfl
  | cons c r => exact List.dropWhile_cons_of_neg (by simp [h.head])

theorem takeWhile_run (ha : ∀ c ∈ a, p c = true) (hs : Ends p s) : (a ++ s).takeWhile p = a := by
  rw [List.takeWhile_append_of_pos ha, hs.takeWhile, List.append_nil]

theorem dropWhile_run (ha : ∀ c ∈ a, p c = true) (hs : Ends p s) : (a ++ s).dropWhile p = s := by
  rw [List.dropWhile_append_of_pos ha, hs.dropWhile]

theorem mem_takeWhile {c : Char} (h : c ∈ s.takeWhile p) : p c = true :=
  List.all_eq_true.mp List.all_takeWhile c h

/-- A run and what follows it are found in the text in one way only. -/
theorem run_unique (ha : ∀ c ∈ a, p c = true) (hs : Ends p s) (hb : ∀ c ∈ b, p c = true)
    (ht : Ends p t) (h : a ++ s = b ++ t) : a = b ∧ s = t := by
  constructor
  · rw [← takeWhile_run ha hs, h, takeWhile_run hb ht]
  · rw [← dropWhile_run ha hs, h, dropWhile_run hb ht]

theorem ends_append (ha : Ends p a) (hne : a ≠ []) : Ends p (a ++ s) := by
  cases a with
  | nil => exact absurd rfl hne
  | cons c r => exact .cons ha.head

theorem Ends.extend {c : Char} (ha : Ends p a) (hc : p c = false) : Ends p (a ++ c :: b) := by
  cases a with
  | nil => exact .cons hc
  | cons d r => exact .cons ha.head

theorem Ends.of_append (h : Ends p (a ++ b)) : Ends p a := by
  cases a with
  | nil => exact .nil
  | cons c r => exact .cons h.head

/-! ## Trimming -/

theorem trimBy_append (ha : ∀ c ∈ a, p c = true) : trimBy p (a ++ s) = trimBy p s := by
  rw [trimBy, List.dropWhile_append_of_pos ha, trimBy]

theorem trimBy_eq_self (hs : Ends p s) (hr : Ends p s.reverse) : trimBy p s = s := by
  rw [trimBy, hs.dropWhile, hr.dropWhile, List.reverse_reverse]

/-- The text without the characters of `p` at its end. -/
def trimEnd (p : Char → Bool) (s : List Char) : List Char := (s.reverse.dropWhile p).reverse

theorem exists_trimEnd (p : Char → Bool) (s : List Char) : ∃ e, s = trimEnd p s ++ e :=
  ⟨(s.reverse.takeWhile p).reverse, by simp [trimEnd, ← List.reverse_append]⟩

theorem mem_of_mem_trimEnd {c : Char} (h : c ∈ trimEnd p s) : c ∈ s := by
  obtain ⟨e, he⟩ := exists_trimEnd p s
  rw [he]
  exact List.mem_append_left e h

theorem ends_trimBy (p : Char → Bool) (s : List Char) : Ends p (trimBy p s) := by
  have h := ends_dropWhile p s
  obtain ⟨e, he⟩ := exists_trimEnd p (s.dropWhile p)
  rw [he] at h
  exact h.of_append

theorem dropWhile_around {c : Char} (hc : p c = false) (a b : List Char) :
    (a ++ c :: b).dropWhile p = a.dropWhile p ++ c :: b := by
  rw [List.dropWhile_append, List.dropWhile_cons_of_neg (by simp [hc])]
  split
  · rename_i h
    rw [List.isEmpty_iff.mp h, List.nil_append]
  · rfl

theorem trimEnd_around {c : Char} (hc : p c = false) (a b : List Char) :
    trimEnd p (a ++ c :: b) = a ++ c :: trimEnd p b := by
  have hrev : (a ++ c :: b).reverse = b.reverse ++ c :: a.reverse := by simp
  rw [trimEnd, hrev, dropWhile_around hc, trimEnd]
  simp

/-- A character that stays keeps what stands before and after it apart. -/
theorem trimBy_around {c : Char} (hc : p c = false) (a b : List Char) :
    trimBy p (a ++ c :: b) = a.dropWhile p ++ c :: trimEnd p b := by
  rw [trimBy, dropWhile_around hc]
  exact trimEnd_around hc _ b

theorem trimBy_of_trimEnd {c : Char} {r : List Char} (h : trimEnd p s = a ++ c :: r)
    (ha : ∀ d ∈ a, p d = true) (hc : p c = false) : trimBy p s = c :: r := by
  obtain ⟨e, he⟩ := exists_trimEnd p s
  rw [h, List.append_assoc, List.cons_append] at he
  have hrest : a ++ c :: trimEnd p (r ++ e) = a ++ c :: r := by rw [← trimEnd_around hc, ← he, h]
  rw [he, trimBy_around hc, List.dropWhile_eq_nil_iff.mpr ha, List.nil_append]
  exact List.append_cancel_left hrest

end RandomAccess.Text

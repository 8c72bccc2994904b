import RandomAccess.Proofs.Except
import RandomAccess.Proofs.Numeral
import RandomAccess.Proofs.Source.Scanning
import RandomAccess.Proofs.Text.Words
import RandomAccess.Tape.Input

/-!
# Reading a tape

A tape is read from the words of a text, and each word has to be an entry: a sign or none, and then digits
of any script. Underscores may divide the digits into groups, none of which is empty. The value of an entry
is the number that its digits stand for in base ten. The first word that is not an entry is the one that is
reported.
-/

namespace RandomAccess

namespace Grammar

/-- A digit in front of other digits, if there are any. -/
def Digits.extend {p : Char → Bool} {c : Char} (hc : p c = true) (row : List Char)
    (h : ∀ d ∈ row, p d = true) : Digits p where
  text := c :: row
  ne_nil := nofun
  isDigit := by simpa using ⟨hc, h⟩

def joined (groups : List (Digits Text.isDecimalDigit)) : List Char :=
  ['_'].intercalate (groups.map Digits.text)

def figures (groups : List (Digits Text.isDecimalDigit)) : List Char := groups.flatMap Digits.text

theorem joined_singleton (g : Digits Text.isDecimalDigit) : joined [g] = g.text := by simp [joined]

theorem joined_cons (g g' : Digits Text.isDecimalDigit) (groups : List (Digits Text.isDecimalDigit)) :
    joined (g :: g' :: groups) = g.text ++ '_' :: joined (g' :: groups) := by
  simp [joined, List.intercalate_cons_cons]

/-- What is joined starts with the first group. -/
theorem exists_joined (groups : List (Digits Text.isDecimalDigit)) :
    ∃ s, ∀ g', joined (g' :: groups) = g'.text ++ s := by
  cases groups with
  | nil => exact ⟨[], fun g' => by rw [joined_singleton, List.append_nil]⟩
  | cons g₁ groups => exact ⟨_, fun g' => joined_cons g' g₁ groups⟩

theorem isDecimalDigit_figures (groups : List (Digits Text.isDecimalDigit)) :
    ∀ c ∈ figures groups, Text.isDecimalDigit c = true := by
  intro c hc
  obtain ⟨g, -, hc⟩ := List.mem_flatMap.mp hc
  exact g.isDigit c hc

/-- Leading zeros count towards the length of an entry, the sign and the underscores do not. -/
@[ext] structure Entry where
  sign : Sign
  groups : List (Digits Text.isDecimalDigit)
  ne_nil : groups ≠ []
  short : (figures groups).length ≤ digitLimit

namespace Entry

def text (e : Entry) : List Char := e.sign.text ++ joined e.groups

/-- The number in base ten; the last digit counts the ones. -/
def value (e : Entry) : Int :=
  e.sign.apply (Nat.ofDigits 10 ((figures e.groups).filterMap Text.digitValue?).reverse)

end Entry
end Grammar

namespace Numeral

open Grammar

variable {c d : Char} {n : Nat} {row s : List Char} {ds : List Nat} {v : Int}
  {groups : List (Digits Text.isDecimalDigit)}

/-! ## Rows of digits -/

theorem spelled?_singleton (hc : Text.digitValue? c = some n) : spelled? [c] = some [n] := by
  simp [spelled?, hc]

theorem spelled?_underscore (hc : Text.digitValue? c = some n) (s : List Char) :
    spelled? (c :: '_' :: s) = (spelled? s).map (n :: ·) := by
  simp [spelled?, hc, Option.map_eq_bind]

theorem spelled?_digit (hc : Text.digitValue? c = some n) (hd : Text.isDecimalDigit d = true)
    (s : List Char) : spelled? (c :: d :: s) = (spelled? (d :: s)).map (n :: ·) := by
  have hne : d ≠ '_' := by
    rintro rfl
    exact absurd hd (by decide)
  rw [spelled?.eq_4 _ _ (by simp) (by simpa using hne)]
  simp [hc, Option.map_eq_bind]

theorem spelled?_row (hne : row ≠ []) (h : ∀ c ∈ row, Text.isDecimalDigit c = true) :
    spelled? row = some (row.filterMap Text.digitValue?) := by
  induction row with
  | nil => exact absurd rfl hne
  | cons c row ih =>
      obtain ⟨n, hn⟩ := Option.isSome_iff_exists.mp (h c (by simp))
      rw [List.filterMap_cons_some hn]
      cases row with
      | nil => exact spelled?_singleton hn
      | cons d row =>
          rw [spelled?_digit hn (h d (by simp)), ih nofun fun e he => h e (by simp [he])]
          rfl

theorem spelled?_row_append (hne : row ≠ []) (h : ∀ c ∈ row, Text.isDecimalDigit c = true)
    (s : List Char) :
    spelled? (row ++ '_' :: s) = (spelled? s).map (row.filterMap Text.digitValue? ++ ·) := by
  induction row with
  | nil => exact absurd rfl hne
  | cons c row ih =>
      obtain ⟨n, hn⟩ := Option.isSome_iff_exists.mp (h c (by simp))
      rw [List.filterMap_cons_some hn]
      cases row with
      | nil => exact spelled?_underscore hn s
      | cons d row =>
          rw [List.cons_append, List.cons_append, spelled?_digit hn (h d (by simp)), ← List.cons_append,
            ih nofun fun e he => h e (by simp [he]), Option.map_map]
          rfl

theorem spelled?_joined (hne : groups ≠ []) :
    spelled? (joined groups) = some ((figures groups).filterMap Text.digitValue?) := by
  induction groups with
  | nil => exact absurd rfl hne
  | cons g groups ih =>
      cases groups with
      | nil =>
          rw [joined_singleton, spelled?_row g.ne_nil g.isDigit]
          simp [figures]
      | cons g' groups =>
          rw [joined_cons, spelled?_row_append g.ne_nil g.isDigit, ih nofun]
          simp [figures]

/-- A row that is read falls into groups at its underscores. -/
theorem exists_groups (h : spelled? s = some ds) : ∃ groups, groups ≠ [] ∧ s = joined groups := by
  fun_induction spelled? s generalizing ds with
  | case1 => cases h
  | case2 c =>
      obtain ⟨n, hn, -⟩ := Option.map_eq_some_iff.mp h
      have hc : Text.isDecimalDigit c = true := Option.isSome_of_eq_some hn
      exact ⟨[.extend hc [] (by simp)], by simp, by rw [joined_singleton]; rfl⟩
  | case3 c r ih =>
      simp only [Option.bind_eq_bind, Option.bind_eq_some_iff] at h
      obtain ⟨n, hn, ms, hms, -⟩ := h
      have hc : Text.isDecimalDigit c = true := Option.isSome_of_eq_some hn
      obtain ⟨groups, hne, rfl⟩ := ih hms
      obtain ⟨g, groups, rfl⟩ := List.exists_cons_of_ne_nil hne
      exact ⟨.extend hc [] (by simp) :: g :: groups, by simp, by rw [joined_cons]; rfl⟩
  | case4 c r h₁ h₂ ih =>
      simp only [Option.bind_eq_bind, Option.bind_eq_some_iff] at h
      obtain ⟨n, hn, ms, hms, -⟩ := h
      have hc : Text.isDecimalDigit c = true := Option.isSome_of_eq_some hn
      obtain ⟨groups, hne, rfl⟩ := ih hms
      obtain ⟨g, groups, rfl⟩ := List.exists_cons_of_ne_nil hne
      obtain ⟨s, hs⟩ := exists_joined groups
      exact ⟨.extend hc g.text g.isDigit :: groups, by simp, by rw [hs, hs]; rfl⟩

/-! ## Numerals -/

theorem read?_text (e : Entry) : read? e.text = some e.value := by
  obtain ⟨sign, groups, hne, hshort⟩ := e
  obtain ⟨g, groups, rfl⟩ := List.exists_cons_of_ne_nil hne
  obtain ⟨s, hs⟩ := exists_joined groups
  simp only [read?, Entry.text, Entry.value]
  rw [hs, Source.sign_text, ← hs, spelled?_joined hne]
  simp only [Text.length_filterMap_digitValue? (isDecimalDigit_figures _), if_pos hshort,
    Source.signed_eq_apply, ofDigits_eq]

/-- The entries are what can be read. -/
theorem read?_eq_some_iff : read? s = some v ↔ ∃ e : Entry, e.text = s ∧ e.value = v := by
  constructor
  · intro h
    obtain ⟨g, hg, -⟩ := Source.exists_sign s
    cases hds : spelled? (sign s).2 with
    | none => simp [read?, hds] at h
    | some ds =>
        obtain ⟨groups, hne, hs⟩ := exists_groups hds
        have hshort : (figures groups).length ≤ digitLimit := by
          rw [hs, spelled?_joined hne, Option.some.injEq] at hds
          rw [← Text.length_filterMap_digitValue? (isDecimalDigit_figures groups), hds]
          by_contra hlong
          simp [read?, hs, spelled?_joined hne, hds, hlong] at h
        let e : Entry := ⟨g, groups, hne, hshort⟩
        have he : e.text = s := by rw [hg, hs]; rfl
        exact ⟨e, he, Option.some.inj ((read?_text e).symm.trans (he ▸ h))⟩
  · rintro ⟨e, rfl, rfl⟩
    exact read?_text e

example : ["1_", "_1", "+_1", "1__0", "+", "+1_0"].map (read? ·.toList) =
    [none, none, none, none, none, some 10] := by decide

end Numeral

/-! ## Tapes -/

namespace InputTape

open Grammar (Entry)

variable {s w : List Char} {ws : List (List Char)} {v : Int} {vs : List Int} {t : InputTape}
  {x : InvalidValue}

def readWord (w : List Char) : Except InvalidValue Int :=
  match Numeral.read? w with
  | some v => .ok v
  | none => .error ⟨String.ofList w⟩

theorem ofText_eq (s : List Char) :
    ofText s = (Text.words s).mapM readWord >>= fun vs => .ok (ofList vs) := rfl

def IsEntry (w : List Char) : Prop := ∃ e : Entry, e.text = w

theorem readWord_eq_ok_iff : readWord w = .ok v ↔ ∃ e : Entry, e.text = w ∧ e.value = v := by
  rw [← Numeral.read?_eq_some_iff, readWord]
  cases Numeral.read? w with
  | none => simp
  | some u => simp

theorem isEntry_iff : IsEntry w ↔ ∃ v, readWord w = .ok v := by
  simp [IsEntry, readWord_eq_ok_iff]

theorem readWord_eq_error_iff : readWord w = .error x ↔ ¬ IsEntry w ∧ x = ⟨String.ofList w⟩ := by
  rw [isEntry_iff, readWord]
  cases Numeral.read? w with
  | none => simp [eq_comm]
  | some u => simp

theorem mapM_readWord_eq_ok_iff : ws.mapM readWord = .ok vs ↔
    ∃ es : List Entry, es.map Entry.text = ws ∧ es.map Entry.value = vs := by
  simp only [mapM_eq_ok_iff, readWord_eq_ok_iff]
  constructor
  · intro h
    induction h with
    | nil => exact ⟨[], rfl, rfl⟩
    | cons he _ ih =>
        obtain ⟨e, rfl, rfl⟩ := he
        obtain ⟨es, rfl, rfl⟩ := ih
        exact ⟨e :: es, rfl, rfl⟩
  · rintro ⟨es, rfl, rfl⟩
    rw [List.forall₂_map_left_iff, List.forall₂_map_right_iff, List.forall₂_same]
    exact fun e _ => ⟨e, rfl, rfl⟩

theorem ofText_eq_ok_iff : ofText s = .ok t ↔
    ∃ es : List Entry, es.map Entry.text = Text.words s ∧ t = ofList (es.map Entry.value) := by
  simp only [ofText_eq, bind_eq_ok_iff, mapM_readWord_eq_ok_iff]
  constructor
  · rintro ⟨vs, ⟨es, hes, rfl⟩, ⟨⟩⟩
    exact ⟨es, hes, rfl⟩
  · rintro ⟨es, hes, rfl⟩
    exact ⟨_, ⟨es, hes, rfl⟩, rfl⟩

theorem ofText_eq_error_iff : ofText s = .error x ↔
    ∃ before w after, Text.words s = before ++ w :: after ∧ (∀ u ∈ before, IsEntry u) ∧ ¬ IsEntry w ∧
      x = ⟨String.ofList w⟩ := by
  have hbind : ofText s = .error x ↔ (Text.words s).mapM readWord = .error x := by
    simp [ofText_eq, bind_eq_error_iff]
  simp only [hbind, mapM_eq_error_iff, readWord_eq_error_iff, ← isEntry_iff]

/-- A text is a tape if and only if its words are entries, and then the tape holds their values in order.
Otherwise the first word that is not an entry is reported, whatever follows it. -/
theorem ofText_eq_iff (s : List Char) : ∃ ws, (∀ us, Text.Spaced s us ↔ us = ws) ∧
    (∀ t, ofText s = .ok t ↔
      ∃ es : List Entry, es.map Entry.text = ws ∧ t = ofList (es.map Entry.value)) ∧
    ∀ x, ofText s = .error x ↔
      ∃ before w after, ws = before ++ w :: after ∧ (∀ u ∈ before, IsEntry u) ∧ ¬ IsEntry w ∧
        x = ⟨String.ofList w⟩ ∧ x.message = "Invalid input tape value: " ++ String.ofList w := by
  refine ⟨Text.words s, fun us => Text.spaced_iff, fun t => ofText_eq_ok_iff, fun x => ?_⟩
  rw [ofText_eq_error_iff]
  constructor
  · rintro ⟨before, w, after, hws, hbefore, hw, rfl⟩
    exact ⟨before, w, after, hws, hbefore, hw, rfl, rfl⟩
  · rintro ⟨before, w, after, hws, hbefore, hw, hx, -⟩
    exact ⟨before, w, after, hws, hbefore, hw, hx⟩

end InputTape
end RandomAccess

import RandomAccess.Numeral
import RandomAccess.Proofs.Text.Ascii

/-!
# Numerals

A numeral that is short enough to be read spells a number that can be written, and a number that can be
written has a numeral that is short enough to be read and spells it.
-/

namespace RandomAccess

variable {c : Char} {n : Nat}

namespace Text

theorem digitValue?_lt (h : digitValue? c = some n) : n < 10 := by
  obtain ⟨z, hz, rfl⟩ := Option.map_eq_some_iff.mp h
  have hc := List.find?_some hz
  simp only [Bool.and_eq_true, decide_eq_true_eq] at hc
  omega

theorem digitValue?_of_isDigit (h : c.isDigit = true) : digitValue? c = some (c.toNat - '0'.toNat) := by
  have hlt : c.toNat < 128 := toNat_lt_of_isAlphanum (by simp [Char.isAlphanum, h])
  exact forall_ascii (P := fun c => c.isDigit = true → digitValue? c = some (c.toNat - '0'.toNat))
    (by decide +kernel) hlt h

theorem isDecimalDigit_of_isDigit (h : c.isDigit = true) : isDecimalDigit c = true := by
  rw [isDecimalDigit, digitValue?_of_isDigit h]
  rfl

theorem length_filterMap_digitValue? {row : List Char} (h : ∀ c ∈ row, isDecimalDigit c = true) :
    (row.filterMap digitValue?).length = row.length := by
  induction row with
  | nil => rfl
  | cons c row ih =>
      obtain ⟨n, hn⟩ := Option.isSome_iff_exists.mp (h c (by simp))
      rw [List.filterMap_cons_some hn, List.length_cons, ih fun d hd => h d (by simp [hd]), List.length_cons]

end Text

namespace Numeral

/-- The first digit counts most. -/
theorem ofDigits_eq (ds : List Nat) : ofDigits ds = Nat.ofDigits 10 ds.reverse := by
  induction ds using List.reverseRecOn with
  | nil => rfl
  | append_singleton ds d ih =>
      rw [ofDigits, List.foldl_append, List.reverse_append, List.reverse_singleton, List.singleton_append,
        Nat.ofDigits_cons, ← ih, Nat.add_comm]
      rfl

theorem ofDigits_lt {ds : List Nat} (h : ∀ d ∈ ds, d < 10) : ofDigits ds < 10 ^ ds.length := by
  -- what was read before counts for the more, the more digits follow
  have hfold : ∀ k, ds.foldl (fun n d => 10 * n + d) k < (k + 1) * 10 ^ ds.length := by
    induction ds with
    | nil => intro k; simp
    | cons d ds ih =>
        intro k
        have hd := h d (by simp)
        calc (d :: ds).foldl (fun n d => 10 * n + d) k
            < (10 * k + d + 1) * 10 ^ ds.length := ih (fun e he => h e (by simp [he])) _
          _ ≤ ((k + 1) * 10) * 10 ^ ds.length := Nat.mul_le_mul_right _ (by omega)
          _ = (k + 1) * 10 ^ (d :: ds).length := by
              rw [Nat.mul_assoc, List.length_cons, Nat.pow_succ, Nat.mul_comm 10]
  simpa [ofDigits] using hfold 0

theorem ofDigits_row_lt (row : List Char) :
    ofDigits (row.filterMap Text.digitValue?) < 10 ^ row.length := by
  refine Nat.lt_of_lt_of_le (ofDigits_lt ?_)
    (Nat.pow_le_pow_right (by decide) (List.length_filterMap_le Text.digitValue? row))
  intro d hd
  obtain ⟨c, -, hc⟩ := List.mem_filterMap.mp hd
  exact Text.digitValue?_lt hc

/-- The numeral of an integer is how the library writes it in decimal. -/
theorem text_eq_toString : text = toString := by
  funext v
  cases v with
  | ofNat n => rfl
  | negSucc n =>
      apply String.toList_injective
      simp [text, toString, Int.repr, Nat.repr]

theorem toList_text (n : Nat) : (text n).toList = Nat.toDigits 10 n := String.toList_ofList

theorem isDigit_toDigits : ∀ c ∈ Nat.toDigits 10 n, c.isDigit = true :=
  fun _ hc => Nat.isDigit_of_mem_toDigits (by decide) (by decide) hc

theorem ofDigits_toDigits (n : Nat) : ofDigits ((Nat.toDigits 10 n).filterMap Text.digitValue?) = n := by
  have hrow : ∀ (row : List Char) (k : Nat), (∀ c ∈ row, c.isDigit = true) →
      (row.filterMap Text.digitValue?).foldl (fun n d => 10 * n + d) k = Nat.ofDigitChars 10 row k := by
    intro row
    induction row with
    | nil => intro k _; rfl
    | cons c row ih =>
        intro k h
        rw [List.filterMap_cons_some (Text.digitValue?_of_isDigit (h c (by simp))), List.foldl_cons,
          ih _ fun d hd => h d (by simp [hd]), Nat.ofDigitChars_cons]
  rw [ofDigits, hrow _ 0 isDigit_toDigits, Nat.ofDigitChars_ten_toDigits]

theorem writable_iff {v : Int} : writable v = true ↔ v.natAbs < 10 ^ digitLimit := by
  rw [writable, decide_eq_true_eq, pow10, Nat.pow_eq]

theorem length_toDigits_le_iff : (Nat.toDigits 10 n).length ≤ digitLimit ↔ n < 10 ^ digitLimit :=
  Nat.length_toDigits_le_iff (by decide) (by decide)

end Numeral
end RandomAccess

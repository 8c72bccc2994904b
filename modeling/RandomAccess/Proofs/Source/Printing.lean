import RandomAccess.Proofs.Numeral
import RandomAccess.Proofs.Source.Line

/-!
# Instructions as text

An instruction that a line gives has a number that can be written and names in small letters. So its text
is a line again, and the line says the instruction.
-/

namespace RandomAccess

open Source (isTagStart isTagChar noGap space)
open Grammar (Gap Tag Digits Sign Keyword Label Command Line)

/-! ## What lines give -/

/-- A tag in small letters. -/
def IsTag (t : String) : Prop := ∃ n : Tag, t = n.value

/-- An operand that a line can give. -/
def Operand.Sourced : Operand → Prop
  | .constant n => Numeral.writable n = true
  | .direct n | .indirect n => ∃ k : Nat, n = k ∧ Numeral.writable k = true
  | .tag t => IsTag t

/-- An instruction that a line can give. -/
structure Instruction.Sourced (i : Instruction) : Prop where
  operand : ∀ o, i.operand = some o → o.Sourced
  halt : i.opcode = .halt ↔ i.operand = none
  label : ∀ l, i.label = some l → IsTag l

theorem writable_digits {p : Char → Bool} (d : Digits p) (h : d.text.length ≤ digitLimit) (g : Sign) :
    Numeral.writable (g.apply d.value) = true := by
  have hv : (g.apply d.value).natAbs = d.value := by
    cases g with
    | none => rfl
    | plus => rfl
    | minus => exact Int.natAbs_neg d.value
  rw [Numeral.writable_iff, hv]
  rw [Digits.value, ← Numeral.ofDigits_eq]
  exact Nat.lt_of_lt_of_le (Numeral.ofDigits_row_lt d.text) (Nat.pow_le_pow_right (by decide) h)

theorem sourced_operand (o : Grammar.Operand) (h : o.length ≤ digitLimit) : o.value.Sourced := by
  cases o with
  | constant g₁ g₂ sign d => exact writable_digits d h sign
  | indirect g₁ g₂ d => exact ⟨d.value, rfl, writable_digits d h .none⟩
  | direct g d => exact ⟨d.value, rfl, writable_digits d h .none⟩
  | tag g n => exact ⟨n, rfl⟩

theorem Operand.Sourced.writable {o : Operand} (h : o.Sourced) : o.writable = true := by
  unfold Operand.writable
  cases o with
  | constant n => exact h
  | direct n =>
      obtain ⟨k, rfl, hk⟩ := h
      exact hk
  | indirect n =>
      obtain ⟨k, rfl, hk⟩ := h
      exact hk
  | tag t => rfl

theorem sourced_command (c : Command) (h : c.length ≤ digitLimit) (l : Option Label) :
    ({ c.value with label := l.map Label.value } : Instruction).Sourced := by
  obtain ⟨g, k, o, hc⟩ := c
  refine ⟨?_, ?_, ?_⟩
  · intro o' ho
    dsimp only [Command.value] at ho
    split at ho
    · cases ho
    · obtain ⟨t, rfl, rfl⟩ := Option.map_eq_some_iff.mp ho
      exact sourced_operand t h
  · dsimp only [Command.value]
    by_cases hk : k.op = .halt
    · simp [hk]
    · simp [hk, hc hk]
  · intro m hm
    obtain ⟨t, rfl, rfl⟩ := Option.map_eq_some_iff.mp hm
    exact ⟨t.name, rfl⟩

theorem sourced_of_read {line : List Char} {i : Instruction}
    (h : Source.Statement.read line = .ok (.instruction i)) : i.Sourced := by
  obtain ⟨⟨st, tail, hb⟩, -, hr, hv⟩ := Source.exists_line_iff.mp (Source.read_eq_ok_iff.mp h)
  cases st with
  | nothing => cases hv
  | label l => cases hv
  | instruction l c =>
      cases hv
      exact sourced_command c hr l

theorem isTag_of_read {line : List Char} {l : String}
    (h : Source.Statement.read line = .ok (.label l)) : IsTag l := by
  obtain ⟨⟨st, tail, hb⟩, -, hr, hv⟩ := Source.exists_line_iff.mp (Source.read_eq_ok_iff.mp h)
  cases st with
  | nothing => cases hv
  | label t =>
      cases hv
      exact ⟨t.name, rfl⟩
  | instruction t c => cases hv

/-! ## The derivation of a text -/

theorem isTagStart_toLower {c : Char} (h : isTagStart c = true) : isTagStart c.toLower = true :=
  Text.forall_ascii (P := fun c => isTagStart c = true → isTagStart c.toLower = true) (by decide +kernel)
    (Source.toNat_lt_of_isTagChar (Source.isTagChar_of_isTagStart h)) h

theorem isTagChar_toLower {c : Char} (h : isTagChar c = true) :
    isTagChar c.toLower = true ∧ c.toLower.toLower = c.toLower :=
  Text.forall_ascii
    (P := fun c => isTagChar c = true → isTagChar c.toLower = true ∧ c.toLower.toLower = c.toLower)
    (by decide +kernel) (Source.toNat_lt_of_isTagChar h) h

/-- A tag in small letters is its own name. -/
theorem IsTag.exists_tag {t : String} (h : IsTag t) : ∃ n : Tag, n.text = t.toList ∧ n.value = t := by
  obtain ⟨n, rfl⟩ := h
  refine ⟨⟨n.first.toLower, n.rest.map Char.toLower, isTagStart_toLower n.isTagStart, ?_⟩, ?_, ?_⟩
  · intro c hc
    obtain ⟨d, hd, rfl⟩ := List.mem_map.mp hc
    exact (isTagChar_toLower (n.isTagChar d hd)).1
  · rw [Tag.value, String.toList_ofList]
    rfl
  · have hmap : (n.text.map Char.toLower).map Char.toLower = n.text.map Char.toLower := by
      rw [List.map_map]
      refine List.map_congr_left fun c hc => ?_
      exact (isTagChar_toLower (Source.tag_chars n c hc)).2
    exact congrArg String.ofList hmap

/-- The digits of a number. -/
def decimal (p : Char → Bool) (hp : ∀ c, c.isDigit = true → p c = true) (n : Nat) : Digits p where
  text := Nat.toDigits 10 n
  ne_nil := Nat.toDigits_ne_nil
  isDigit := fun c hc => hp c (Numeral.isDigit_toDigits c hc)

theorem decimal_value {p : Char → Bool} (hp : ∀ c, c.isDigit = true → p c = true) (n : Nat) :
    (decimal p hp n).value = n := by
  rw [Digits.value, ← Numeral.ofDigits_eq]
  exact Numeral.ofDigits_toDigits n

theorem decimal_length {p : Char → Bool} (hp : ∀ c, c.isDigit = true → p c = true) {n : Nat}
    (h : n < 10 ^ digitLimit) : (decimal p hp n).text.length ≤ digitLimit :=
  Numeral.length_toDigits_le_iff.mpr h

theorem exists_integer {v : Int} (h : Numeral.writable v = true) :
    ∃ (g : Sign) (d : Digits Text.isDecimalDigit), g.text ++ d.text = (Numeral.text v).toList ∧
      g.apply d.value = v ∧ d.text.length ≤ digitLimit := by
  have hp : ∀ c : Char, c.isDigit = true → Text.isDecimalDigit c = true :=
    fun _ => Text.isDecimalDigit_of_isDigit
  rw [Numeral.writable_iff] at h
  cases v with
  | ofNat n =>
      refine ⟨.none, decimal _ hp n, ?_, ?_, decimal_length hp h⟩
      · exact (Numeral.toList_text n).symm
      · rw [decimal_value]
        rfl
  | negSucc n =>
      refine ⟨.minus, decimal _ hp (n + 1), ?_, ?_, decimal_length hp h⟩
      · rw [Numeral.text, String.toList_ofList]
        rfl
      · rw [decimal_value]
        rfl

/-- The text of an operand that a line gave, with a space before it, is an operand again. -/
theorem Operand.Sourced.exists_operand {o : Operand} (h : o.Sourced) :
    ∃ t : Grammar.Operand, t.text = ' ' :: o.text.toList ∧ t.value = o ∧ t.length ≤ digitLimit := by
  cases o with
  | constant n =>
      obtain ⟨g, d, ht, hv, hl⟩ := exists_integer h
      refine ⟨.constant space noGap g d, ?_, congrArg Operand.constant hv, hl⟩
      rw [Operand.text, String.toList_append, ← ht]
      rfl
  | direct n =>
      obtain ⟨k, rfl, hk⟩ := h
      refine ⟨.direct space (decimal _ (fun _ h => h) k), ?_, ?_,
        decimal_length _ (Numeral.writable_iff.mp hk)⟩
      · rw [Operand.text, Numeral.toList_text]
        rfl
      · rw [Grammar.Operand.value, decimal_value]
  | indirect n =>
      obtain ⟨k, rfl, hk⟩ := h
      refine ⟨.indirect space noGap (decimal _ (fun _ h => h) k), ?_, ?_,
        decimal_length _ (Numeral.writable_iff.mp hk)⟩
      · rw [Operand.text, String.toList_append, Numeral.toList_text]
        rfl
      · rw [Grammar.Operand.value, decimal_value]
  | tag t =>
      obtain ⟨n, ht, hv⟩ := IsTag.exists_tag h
      exact ⟨.tag space n, congrArg (' ' :: ·) ht, congrArg Operand.tag hv, Nat.zero_le _⟩

/-! ## The characters of a text -/

/-- The characters that instructions are written with, the space apart. -/
def isInk (c : Char) : Bool := isTagChar c || c = '=' || c = '*' || c = '-' || c = ':'

theorem isBlank_of_isInk {c : Char} (h : isInk c = true) : Text.isBlank c = false := by
  have hc : c.toNat < 128 := by
    simp only [isInk, Bool.or_eq_true, decide_eq_true_eq] at h
    rcases h with (((h | rfl) | rfl) | rfl) | rfl
    · exact Source.toNat_lt_of_isTagChar h
    all_goals decide
  exact Text.forall_ascii (P := fun c => isInk c = true → Text.isBlank c = false) (by decide +kernel) hc h

/-- A word in ink. -/
def Inked (w : List Char) : Prop := w ≠ [] ∧ ∀ c ∈ w, isInk c = true

theorem Inked.ends {w s : List Char} (h : Inked w) : Text.Ends Text.isBlank (w ++ s) := by
  refine Text.ends_append ?_ h.1
  intro c r hc
  exact isBlank_of_isInk (h.2 c (by simp [hc]))

theorem Inked.ends_reverse {w s : List Char} (h : Inked w) : Text.Ends Text.isBlank (s ++ w).reverse := by
  have hw : Inked w.reverse := ⟨by simpa using h.1, fun c hc => h.2 c (List.mem_reverse.mp hc)⟩
  rw [List.reverse_append]
  exact hw.ends

theorem Inked.cons {w : List Char} {c : Char} (hc : isInk c = true) (h : ∀ d ∈ w, isInk d = true) :
    Inked (c :: w) := by
  refine ⟨nofun, fun d hd => ?_⟩
  rcases List.mem_cons.mp hd with rfl | hd
  · exact hc
  · exact h d hd

theorem isInk_of_isTagChar {c : Char} (h : isTagChar c = true) : isInk c = true := by simp [isInk, h]

theorem inked_toDigits (n : Nat) : Inked (Nat.toDigits 10 n) := by
  refine ⟨Nat.toDigits_ne_nil, fun c hc => isInk_of_isTagChar ?_⟩
  simp [isTagChar, Char.isAlphanum, Numeral.isDigit_toDigits c hc]

theorem inked_text (v : Int) : Inked (Numeral.text v).toList := by
  cases v with
  | ofNat n =>
      rw [Numeral.text, String.toList_ofList]
      exact inked_toDigits n
  | negSucc n =>
      rw [Numeral.text, String.toList_ofList]
      exact .cons (by decide) (inked_toDigits (n + 1)).2

theorem IsTag.inked {t : String} (h : IsTag t) : Inked t.toList := by
  obtain ⟨n, ht, -⟩ := h.exists_tag
  rw [← ht]
  exact ⟨nofun, fun c hc => isInk_of_isTagChar (Source.tag_chars n c hc)⟩

theorem Operand.Sourced.inked {o : Operand} (h : o.Sourced) : Inked o.text.toList := by
  cases o with
  | constant n =>
      rw [Operand.text, String.toList_append]
      exact .cons (by decide) (inked_text n).2
  | direct n => exact inked_text n
  | indirect n =>
      rw [Operand.text, String.toList_append]
      exact .cons (by decide) (inked_text n).2
  | tag t => exact IsTag.inked h

theorem inked_mnemonic (op : Opcode) : Inked op.mnemonic.toList := by
  refine ⟨Source.mnemonic_ne_nil op, ?_⟩
  have h : op.mnemonic.toList.all isInk = true := by cases op <;> decide
  exact List.all_eq_true.mp h

/-! ## Reading a text -/

/-- An instruction as text, with a given gap after its label. -/
def Instruction.printed (g : Gap) (i : Instruction) : List Char :=
  match i.label with
  | none => i.body.toList
  | some l => l.toList ++ ':' :: (g.text ++ i.body.toList)

namespace Instruction.Sourced

variable {i : Instruction}

theorem mark_eq (hi : i.Sourced) : i.mark = i.label := by
  unfold mark
  cases hl : i.label with
  | none => rfl
  | some l =>
      have hne : l ≠ "" := by
        rintro rfl
        exact (hi.label "" hl).inked.1 rfl
      simp [hne]

theorem toList_body (hi : i.Sourced) :
    i.body.toList = i.opcode.mnemonic.toList ++ (i.operand.map fun o => ' ' :: o.text.toList).getD [] := by
  unfold body argument
  cases ho : i.operand with
  | none => simp
  | some o =>
      have hne : o.text ≠ "" := by
        intro h
        exact (hi.operand o ho).inked.1 (by rw [h]; rfl)
      simp [hne]

theorem writable (hi : i.Sourced) : i.writable = true := by
  unfold Instruction.writable
  cases ho : i.operand with
  | none => rfl
  | some o => exact (hi.operand o ho).writable

theorem isInk_body (hi : i.Sourced) : ∀ c ∈ i.body.toList, c = ' ' ∨ isInk c = true := by
  intro c hc
  rw [hi.toList_body, List.mem_append] at hc
  rcases hc with hc | hc
  · exact Or.inr ((inked_mnemonic i.opcode).2 c hc)
  · cases ho : i.operand with
    | none => simp [ho] at hc
    | some o =>
        rw [ho, Option.map_some, Option.getD_some, List.mem_cons] at hc
        rcases hc with hc | hc
        · exact Or.inl hc
        · exact Or.inr ((hi.operand o ho).inked.2 c hc)

theorem toList_text (hi : i.Sourced) : i.text.toList = i.printed space := by
  unfold text printed
  rw [hi.mark_eq]
  cases i.label with
  | none => rfl
  | some l =>
      simp only [String.toList_append, List.append_assoc]
      rfl

theorem exists_command (hi : i.Sourced) (g : Gap) :
    ∃ c : Command, c.text = g.text ++ i.body.toList ∧ c.value = { i with label := none } ∧
      c.length ≤ digitLimit ∧ Text.Ends Grammar.isWordChar c.argument := by
  have hspelled : List.Forall₂ Grammar.Letter i.opcode.mnemonic.toList i.opcode.mnemonic.toList :=
    List.forall₂_same.mpr fun c _ => Or.inl rfl
  rw [hi.toList_body]
  cases ho : i.operand with
  | none =>
      have hhalt := hi.halt.mpr ho
      refine ⟨⟨g, ⟨i.opcode, _, hspelled⟩, none, absurd hhalt⟩, ?_, ?_, Nat.zero_le _, .nil⟩
      · simp [Command.text, Command.argument]
      · simp only [Command.value, hhalt, ↓reduceIte]
  | some o =>
      have hhalt : i.opcode ≠ .halt := fun h => by simp [hi.halt.mp h] at ho
      obtain ⟨t, ht, hv, hl⟩ := (hi.operand o ho).exists_operand
      refine ⟨⟨g, ⟨i.opcode, _, hspelled⟩, some t, by simp⟩, ?_, ?_, hl, ?_⟩
      · simp [Command.text, Command.argument, ht]
      · simp only [Command.value, hhalt, ↓reduceIte, Option.map_some, hv]
      · rw [Command.argument, Option.map_some, Option.getD_some, ht]
        exact .cons (by decide)

/-- The text of an instruction that a line gave is read as this instruction. -/
theorem read_printed (hi : i.Sourced) (g : Gap) :
    Source.Statement.read (i.printed g) = .ok (.instruction i) := by
  rw [Source.read_eq_ok_iff, Source.exists_line_iff]
  have hempty : (Grammar.Tail.text ⟨none, noGap, absurd rfl⟩) = [] := rfl
  cases hl : i.label with
  | none =>
      obtain ⟨c, ht, hv, hlen, hend⟩ := hi.exists_command noGap
      refine ⟨⟨.instruction none c, ⟨none, noGap, absurd rfl⟩, ?_⟩, ?_, hlen, ?_⟩
      · rwa [Grammar.Statement.Bounded, hempty, List.append_nil]
      · simp only [Line.text, Grammar.Statement.text, hempty, List.append_nil, ht, printed, hl]
        rfl
      · simp only [Line.value, Grammar.Statement.value, hv]
        rw [Option.map_none, ← hl]
  | some l =>
      obtain ⟨c, ht, hv, hlen, hend⟩ := hi.exists_command g
      obtain ⟨n, hn, hnv⟩ := (hi.label l hl).exists_tag
      refine ⟨⟨.instruction (some ⟨noGap, n, noGap⟩) c, ⟨none, noGap, absurd rfl⟩, ?_⟩, ?_, hlen, ?_⟩
      · rwa [Grammar.Statement.Bounded, hempty, List.append_nil]
      · simp only [Line.text, Grammar.Statement.text, hempty, List.append_nil, ht, printed, hl, ← hn]
        simp [Label.text, noGap]
      · simp only [Line.value, Grammar.Statement.value, hv, Option.map_some, Label.value, hnv]
        rw [← hl]

theorem trim_printed (hi : i.Sourced) (g : Gap) : Text.trim (i.printed g) = i.printed g := by
  have hlast : ∀ a : List Char, Text.Ends Text.isBlank (a ++ i.body.toList).reverse := by
    intro a
    rw [hi.toList_body]
    cases ho : i.operand with
    | none =>
        simp only [Option.map_none, Option.getD_none, List.append_nil]
        exact (inked_mnemonic i.opcode).ends_reverse
    | some o =>
        rw [Option.map_some, Option.getD_some, ← List.append_assoc, List.append_cons]
        exact (hi.operand o ho).inked.ends_reverse
  unfold printed
  cases hl : i.label with
  | none =>
      refine Text.trimBy_eq_self ?_ (hlast [])
      rw [hi.toList_body]
      exact (inked_mnemonic i.opcode).ends
  | some l =>
      refine Text.trimBy_eq_self (hi.label l hl).inked.ends ?_
      have h := hlast (l.toList ++ ':' :: g.text)
      rwa [List.append_assoc] at h

end Instruction.Sourced
end RandomAccess

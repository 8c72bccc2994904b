import RandomAccess.Proofs.Numeral
import RandomAccess.Proofs.Source.Line

/-!
# Capital and small letters

Each reader finds the same token in a text and in the text in small letters, and what follows it there is
the rest in small letters. So a line says the same whatever the case of its letters.
-/

namespace RandomAccess

namespace Text

variable {p : Char → Bool} {c d : Char} {s t : List Char}

/-- The same character, or the same letter in the other case. -/
def Recased (c d : Char) : Prop := d = c ∨ d = c.toUpper ∨ d = c.toLower

theorem Recased.toLower_eq (h : Recased c d) : d.toLower = c.toLower := by
  rcases h with rfl | rfl | rfl
  · rfl
  · exact Char.toLower_toUpper_eq_toLower c
  · exact Char.toLower_toLower_eq_toLower c

/-! ## Characters that are no letters -/

theorem toLower_of_not_isAlpha (h : c.isAlpha = false) : c.toLower = c := by
  rw [Char.isAlpha, Bool.or_eq_false_iff] at h
  exact Char.toLower_eq_of_not_isUpper (by simp [h.1])

/-- No letter becomes a mark of another kind. -/
theorem toLower_eq_iff (hd : d.isAlpha = false) : c.toLower = d ↔ c = d := by
  constructor
  · rintro rfl
    rw [Char.isAlpha_toLower_eq_isAlpha] at hd
    exact (toLower_of_not_isAlpha hd).symm
  · rintro rfl
    exact toLower_of_not_isAlpha hd

/-- A class without letters does not tell a letter from its small letter. -/
theorem toLower_congr (hp : ∀ c, p c = true → c.isAlpha = false) (c : Char) : p c.toLower = p c := by
  cases ha : c.isAlpha with
  | false => rw [toLower_of_not_isAlpha ha]
  | true =>
      have hnot (d : Char) (hd : d.isAlpha = true) : p d = false := by
        cases hpd : p d with
        | false => rfl
        | true => rw [hp d hpd] at hd; cases hd
      rw [hnot c ha, hnot c.toLower (by rwa [Char.isAlpha_toLower_eq_isAlpha])]

/-- A range of code points beside the letters holds none. -/
theorem not_isAlpha_of_range {lo hi : Nat} (h : hi < 65 ∨ 90 < lo ∧ hi < 97 ∨ 122 < lo)
    (hlo : lo ≤ c.toNat) (hhi : c.toNat ≤ hi) : c.isAlpha = false := by
  cases ha : c.isAlpha with
  | false => rfl
  | true =>
      simp only [Char.isAlpha, Char.isUpper, Char.isLower, Bool.or_eq_true, Bool.and_eq_true,
        decide_eq_true_eq, ge_iff_le, UInt32.le_iff_toNat_le] at ha
      change (65 ≤ c.toNat ∧ c.toNat ≤ 90) ∨ 97 ≤ c.toNat ∧ c.toNat ≤ 122 at ha
      omega

theorem not_isAlpha_of_isBlank (h : isBlank c = true) : c.isAlpha = false := by
  simp only [isBlank, CharRanges.contains, List.any_eq_true, Bool.and_eq_true, decide_eq_true_eq] at h
  obtain ⟨r, hr, hlo, hhi⟩ := h
  have hrange : ∀ r ∈ blanks, r.2 < 65 ∨ 90 < r.1 ∧ r.2 < 97 ∨ 122 < r.1 := by decide
  exact not_isAlpha_of_range (hrange r hr) hlo hhi

theorem not_isAlpha_of_isDecimalDigit (h : isDecimalDigit c = true) : c.isAlpha = false := by
  simp only [isDecimalDigit, digitValue?, Option.isSome_map, List.find?_isSome, Bool.and_eq_true,
    decide_eq_true_eq] at h
  obtain ⟨z, hz, hlo, hhi⟩ := h
  have hrange : ∀ z ∈ zeros, z + 9 < 65 ∨ 90 < z ∧ z + 9 < 97 ∨ 122 < z := by decide
  exact not_isAlpha_of_range (hrange z hz) hlo (Nat.le_of_lt_succ hhi)

theorem not_isAlpha_of_isDigit (h : c.isDigit = true) : c.isAlpha = false :=
  not_isAlpha_of_isDecimalDigit (isDecimalDigit_of_isDigit h)

theorem isDigit_toLower (c : Char) : c.toLower.isDigit = c.isDigit :=
  toLower_congr (fun _ => not_isAlpha_of_isDigit) c

/-! ## Texts -/

/-- The text in small letters, as far as they are ASCII. -/
def small (s : List Char) : List Char := s.map Char.toLower

@[simp] theorem small_cons (c : Char) (s : List Char) : small (c :: s) = c.toLower :: small s := rfl

theorem small_eq_nil_iff : small s = [] ↔ s = [] := List.map_eq_nil_iff

theorem small_small (s : List Char) : small (small s) = small s := by
  rw [small, small, List.map_map]
  exact List.map_congr_left fun c _ => Char.toLower_toLower_eq_toLower c

theorem small_eq_of_recased (h : List.Forall₂ Recased s t) : small s = small t := by
  induction h with
  | nil => rfl
  | cons hc _ ih => rw [small_cons, small_cons, hc.toLower_eq, ih]

theorem dropWhile_small (hp : ∀ c, p c.toLower = p c) : (small s).dropWhile p = small (s.dropWhile p) := by
  rw [small, List.dropWhile_map, show p ∘ Char.toLower = p from funext hp, small]

theorem takeWhile_small (hp : ∀ c, p c.toLower = p c) : (small s).takeWhile p = small (s.takeWhile p) := by
  rw [small, List.takeWhile_map, show p ∘ Char.toLower = p from funext hp, small]

theorem trim_small (s : List Char) : trim (small s) = small (trim s) := by
  have hblank := toLower_congr fun _ => not_isAlpha_of_isBlank
  have hrev (u : List Char) : (small u).reverse = small u.reverse := List.map_reverse.symm
  rw [trim, trimBy, dropWhile_small hblank, hrev, dropWhile_small hblank, hrev, trim, trimBy]

end Text

namespace Source

open Text (small toLower_eq_iff dropWhile_small takeWhile_small)

variable {p : Char → Bool} {s : List Char}

/-! ## Tags and keywords -/

theorem skip_small (s : List Char) : skip (small s) = small (skip s) := by
  refine dropWhile_small (Text.toLower_congr fun c hc => ?_)
  rcases isGap_iff.mp hc with rfl | rfl | rfl | rfl <;> rfl

theorem symbol?_small {c : Char} (hc : c.isAlpha = false) (s : List Char) :
    symbol? c (small s) = (symbol? c s).map small := by
  unfold symbol?
  rw [skip_small]
  cases skip s with
  | nil => rfl
  | cons d r =>
      simp only [Text.small_cons, toLower_eq_iff hc]
      split <;> rfl

theorem isTagStart_toLower (c : Char) : isTagStart c.toLower = isTagStart c := by
  have hmark : c.toLower = '_' ↔ c = '_' := toLower_eq_iff (by decide)
  simp only [isTagStart, Char.isAlpha_toLower_eq_isAlpha, hmark]

theorem isTagChar_toLower (c : Char) : isTagChar c.toLower = isTagChar c := by
  have hmark : c.toLower = '_' ↔ c = '_' := toLower_eq_iff (by decide)
  simp only [isTagChar, Char.isAlphanum, Char.isAlpha_toLower_eq_isAlpha, Text.isDigit_toLower, hmark]

theorem tag?_small (s : List Char) : tag? (small s) = (tag? s).map (Prod.map id small) := by
  unfold tag?
  rw [skip_small]
  cases skip s with
  | nil => rfl
  | cons c r =>
      have hname (u : List Char) : (c.toLower :: small u).map Char.toLower = (c :: u).map Char.toLower :=
        Text.small_small (c :: u)
      simp only [Text.small_cons, isTagStart_toLower, takeWhile_small isTagChar_toLower,
        dropWhile_small isTagChar_toLower, hname]
      split <;> rfl

theorem label?_small (s : List Char) : label? (small s) = (label? s).map (Prod.map id small) := by
  unfold label?
  rw [tag?_small]
  rcases tag? s with _ | ⟨t, r⟩
  · rfl
  · simp only [Option.map_some, Prod.map_apply, id_eq, Option.bind_eq_bind, Option.bind_some,
      symbol?_small (c := ':') (by decide)]
    cases symbol? ':' r <;> rfl

theorem capital_toLower (c : Char) : capital c.toLower = capital c := by
  have hdotless : c.toLower = '\u0131' ↔ c = '\u0131' := toLower_eq_iff (by decide)
  have hlong : c.toLower = '\u017F' ↔ c = '\u017F' := toLower_eq_iff (by decide)
  simp only [capital, hdotless, hlong, Char.toUpper_toLower_eq_toUpper]

theorem keyword?_small (op : Opcode) (s : List Char) : keyword? op (small s) = (keyword? op s).map small := by
  have hcapital : capital ∘ Char.toLower = capital := funext capital_toLower
  have hends (c : Char) : continuesKeyword c.toLower = continuesKeyword c := by
    simp only [continuesKeyword, capital_toLower]
  unfold keyword?
  simp only [skip_small]
  simp only [small, ← List.map_take, ← List.map_drop, List.map_map, hcapital, List.head?_map, Option.any_map,
    hends]
  split <;> rfl

theorem opcode?_small (s : List Char) : opcode? (small s) = (opcode? s).map (Prod.map id small) := by
  unfold opcode?
  rw [List.map_findSome?]
  refine congrArg (List.findSome? · Opcode.all) (funext fun op => ?_)
  rw [Function.comp_apply, keyword?_small, Option.map_map, Option.map_map]
  rfl

/-! ## Operands -/

/-- The reading with the rest in small letters. -/
def Reading.small {α : Type} : Reading α → Reading α
  | token v r => token v (Text.small r)
  | x => x

theorem Reading.map_small {α β : Type} (f : α → β) (x : Reading α) : x.small.map f = (x.map f).small := by
  cases x <;> rfl

theorem row_small (hdigit : ∀ c, p c = true → c.isAlpha = false) (s : List Char) :
    row p (small s) = (row p s).small := by
  have hp := Text.toLower_congr hdigit
  have htake : (small s).takeWhile p = s.takeWhile p := by
    rw [takeWhile_small hp, small]
    conv_rhs => rw [← List.map_id (s.takeWhile p)]
    exact List.map_congr_left fun c hc => Text.toLower_of_not_isAlpha (hdigit c (Text.mem_takeWhile hc))
  unfold row
  rw [htake, dropWhile_small hp]
  split
  · rfl
  · split <;> rfl

theorem sign_small (s : List Char) :
    Numeral.sign (small s) = ((Numeral.sign s).1, small (Numeral.sign s).2) := by
  cases s with
  | nil => rfl
  | cons c r =>
      by_cases hplus : c = '+'
      · subst hplus
        rfl
      · by_cases hminus : c = '-'
        · subst hminus
          rfl
        · have hplus' : c.toLower ≠ '+' := mt (toLower_eq_iff (by decide)).mp hplus
          have hminus' : c.toLower ≠ '-' := mt (toLower_eq_iff (by decide)).mp hminus
          simp [Numeral.sign, hplus, hminus, hplus', hminus']

theorem integer_small (s : List Char) : integer (small s) = (integer s).small := by
  unfold integer
  rw [skip_small, sign_small]
  dsimp only
  rw [row_small fun _ => Text.not_isAlpha_of_isDecimalDigit, Reading.map_small]

theorem register_small (s : List Char) : register (small s) = (register s).small := by
  unfold register
  rw [skip_small, row_small fun _ => Text.not_isAlpha_of_isDigit, Reading.map_small]

theorem operand_small (s : List Char) : operand (small s) = (operand s).small := by
  unfold operand
  rw [skip_small]
  cases skip s with
  | nil => rfl
  | cons c r =>
      have hconstant : c.toLower = '=' ↔ c = '=' := toLower_eq_iff (by decide)
      have hindirect : c.toLower = '*' ↔ c = '*' := toLower_eq_iff (by decide)
      have hregister := register_small (c :: r)
      have htag := tag?_small (c :: r)
      rw [Text.small_cons] at hregister htag ⊢
      simp only [hconstant, hindirect, Text.isDigit_toLower, integer_small, register_small, hregister, htag,
        Reading.map_small]
      split
      · rfl
      · split
        · rfl
        · split
          · rfl
          · rcases tag? (c :: r) with _ | ⟨t, u⟩ <;> rfl

/-! ## Statements -/

theorem command_small (s : List Char) : command (small s) = (command s).small := by
  unfold command
  rw [opcode?_small]
  rcases opcode? s with _ | ⟨op, r⟩
  · rfl
  · simp only [Option.map_some, Prod.map_apply, id_eq, operand_small]
    rcases operand r with _ | ⟨o, u⟩ | e
    · simp only [Reading.small]
      split <;> rfl
    · rfl
    · rfl

theorem statement_small (s : List Char) : statement (small s) = (statement s).map (Prod.map id small) := by
  unfold statement
  rw [label?_small]
  rcases label? s with _ | ⟨l, r⟩
  · simp only [Option.map_none, command_small]
    rcases command s with _ | ⟨i, u⟩ | e <;> rfl
  · simp only [Option.map_some, Prod.map_apply, id_eq, command_small]
    rcases command r with _ | ⟨i, u⟩ | e <;> rfl

theorem dropComment_small (s : List Char) : dropComment (small s) = small (dropComment s) := by
  have hfeed (c : Char) : decide (c.toLower ≠ '\n') = decide (c ≠ '\n') := by
    simp only [ne_eq, toLower_eq_iff (c := c) (d := '\n') (by decide)]
  have hbody (r : List Char) : (small r).dropWhile (· ≠ '\n') = small (r.dropWhile (· ≠ '\n')) :=
    dropWhile_small hfeed
  unfold dropComment
  rw [skip_small]
  cases skip s with
  | nil => rfl
  | cons c r =>
      have hhash : c.toLower = '#' ↔ c = '#' := toLower_eq_iff (by decide)
      have hsemicolon : c.toLower = ';' ↔ c = ';' := toLower_eq_iff (by decide)
      simp only [Text.small_cons, hhash, hsemicolon, hbody]
      split <;> rfl

theorem read_small (s : List Char) (st : Statement) :
    Statement.read (small s) = .ok st ↔ Statement.read s = .ok st := by
  rw [read_eq_ok_iff, read_eq_ok_iff, statement_small]
  rcases statement s with e | ⟨st', r⟩
  · simp [Except.map]
  · simp only [Except.map, Prod.map_apply, id_eq, Except.ok.injEq, Prod.mk.injEq, and_assoc,
      exists_and_left, exists_eq_left', dropComment_small, skip_small, Text.small_eq_nil_iff]

/-- Texts that differ in the case of letters only say the same. -/
theorem read_congr {s t : List Char} (h : small s = small t) (st : Statement) :
    Statement.read (Text.trim s) = .ok st ↔ Statement.read (Text.trim t) = .ok st := by
  rw [← read_small, ← read_small (Text.trim t), ← Text.trim_small, ← Text.trim_small, h]

end Source
end RandomAccess

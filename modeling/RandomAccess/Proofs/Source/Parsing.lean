import RandomAccess.Proofs.Source.Scanning

/-!
# Statements as the readers see them

The readers of operands, commands and statements try their alternatives in order and never go back.
They lose nothing by it: of what the grammar derives they read what the derivation says, and they read
nothing else.
-/

namespace RandomAccess.Source

open Text (Ends)
open Grammar (Gap Tag Digits Sign Keyword Label Command)

variable {s r : List Char}

/-! ## Operands -/

/-- The characters that an operand starts with. -/
def startsOperand (c : Char) : Bool := c = '=' || c = '*' || c.isDigit || isTagStart c

theorem not_isDigit_of_isTagStart {c : Char} (h : isTagStart c = true) : c.isDigit = false :=
  Text.forall_ascii (P := fun c => isTagStart c = true → c.isDigit = false) (by decide +kernel)
    (toNat_lt_of_isTagChar (isTagChar_of_isTagStart h)) h

theorem digits_first (d : Digits Char.isDigit) :
    ∃ c u, d.text = c :: u ∧ c.isDigit = true ∧ c ≠ '=' ∧ c ≠ '*' := by
  obtain ⟨c, u, hc⟩ := List.exists_cons_of_ne_nil d.ne_nil
  have hd : c.isDigit = true := d.isDigit c (by simp [hc])
  refine ⟨c, u, hc, hd, ?_, ?_⟩
  · rintro rfl; exact absurd hd (by decide)
  · rintro rfl; exact absurd hd (by decide)

theorem tag_first (n : Tag) : ¬ n.first.isDigit = true ∧ n.first ≠ '=' ∧ n.first ≠ '*' := by
  refine ⟨by simp [not_isDigit_of_isTagStart n.isTagStart], ?_, ?_⟩
  · exact fun h => absurd n.isTagStart (by rw [h]; decide)
  · exact fun h => absurd n.isTagStart (by rw [h]; decide)

/-- The addressing of an operand that starts with the character. -/
def addressingOf (c : Char) : Addressing :=
  if c = '=' then .constant else if c = '*' then .indirect else if c.isDigit then .direct else .tag

theorem operand_starts (o : Grammar.Operand) :
    ∃ (g : Gap) (c : Char) (u : List Char), o.text = g.text ++ c :: u ∧ startsOperand c = true ∧
      addressingOf c = o.value.addressing := by
  cases o with
  | constant g₁ g₂ sign d => exact ⟨g₁, '=', _, rfl, by decide, rfl⟩
  | indirect g₁ g₂ d => exact ⟨g₁, '*', _, rfl, by decide, rfl⟩
  | direct g d =>
      obtain ⟨c, u, hc, hd, h₁, h₂⟩ := digits_first d
      refine ⟨g, c, u, by rw [Grammar.Operand.text, hc], by simp [startsOperand, hd], ?_⟩
      simp only [addressingOf, h₁, h₂, hd, ↓reduceIte]
      rfl
  | tag g n =>
      obtain ⟨h₃, h₁, h₂⟩ := tag_first n
      refine ⟨g, n.first, n.rest, rfl, by simp [startsOperand, n.isTagStart], ?_⟩
      simp only [addressingOf, h₁, h₂, h₃, ↓reduceIte]
      rfl

theorem startsOperand_not_isGap {c : Char} (h : startsOperand c = true) : isGap c = false :=
  not_isGap h (by decide)

theorem operand_eq_absent (h : Ends startsOperand (skip s)) : operand s = .absent := by
  unfold operand
  split
  · rfl
  · rename_i c u hs
    rw [hs] at h
    have hc := h.head
    simp only [startsOperand, Bool.or_eq_false_iff, decide_eq_false_iff_not] at hc
    obtain ⟨⟨⟨h₁, h₂⟩, h₃⟩, h₄⟩ := hc
    have hg : Ends isGap (c :: u) := hs ▸ Text.ends_dropWhile isGap s
    have ht : tag? (c :: u) = none := by
      simp only [tag?, skip, hg.dropWhile, h₄, Bool.false_eq_true, if_false]
    simp only [h₁, h₂, h₃, ht, Bool.false_eq_true, if_false]

/-- The gap of no characters. -/
def noGap : Gap := ⟨[], nofun⟩

/-- The gap of one space. -/
def space : Gap := ⟨[' '], fun _ hc => List.mem_singleton.mp hc ▸ rfl⟩

theorem operand_text (o : Grammar.Operand) (hr : o.Closed r) :
    operand (o.text ++ r) = .counted o.length o.value r := by
  cases o with
  | constant g₁ g₂ sign d =>
      have hs : skip (Grammar.Operand.text (.constant g₁ g₂ sign d) ++ r) =
          '=' :: (g₂.text ++ (sign.text ++ (d.text ++ r))) := by
        simp only [Grammar.Operand.text, List.append_assoc, List.cons_append]
        exact skip_gap g₁ (.cons (by decide))
      simp only [operand, hs, ↓reduceIte, integer_text g₂ sign d hr, Reading.map_counted]
      rfl
  | indirect g₁ g₂ d =>
      have hs : skip (Grammar.Operand.text (.indirect g₁ g₂ d) ++ r) = '*' :: (g₂.text ++ (d.text ++ r)) := by
        simp only [Grammar.Operand.text, List.append_assoc, List.cons_append]
        exact skip_gap g₁ (.cons (by decide))
      have hne : ('*' : Char) ≠ '=' := by decide
      simp only [operand, hs, hne, ↓reduceIte, register_text g₂ d hr, Reading.map_counted]
      rfl
  | direct g d =>
      obtain ⟨c, u, hc, hd, h₁, h₂⟩ := digits_first d
      have hs : skip (Grammar.Operand.text (.direct g d) ++ r) = c :: (u ++ r) := by
        simp only [Grammar.Operand.text, List.append_assoc]
        rw [skip_gap g (ends_digits d fun _ => isGap_of_isDigit), hc]
        rfl
      have hreg : register (c :: (u ++ r)) = .counted d.text.length (d.value : Int) r := by
        have h := register_text noGap d hr
        rw [hc] at h ⊢
        exact h
      simp only [operand, hs, h₁, h₂, hd, ↓reduceIte, hreg, Reading.map_counted]
      rfl
  | tag g n =>
      have hs : skip (Grammar.Operand.text (.tag g n) ++ r) = n.first :: (n.rest ++ r) := by
        simp only [Grammar.Operand.text, List.append_assoc]
        exact skip_gap g (ends_isGap_tag n)
      obtain ⟨h₃, h₁, h₂⟩ := tag_first n
      have ht : tag? (n.first :: (n.rest ++ r)) = some (n.value, r) :=
        tag?_eq_some_iff.mpr ⟨noGap, n, rfl, rfl, hr⟩
      simp only [operand, hs, h₁, h₂, h₃, ↓reduceIte, ht]
      rfl

theorem operand_ne_absent (o : Grammar.Operand) (hr : o.Closed r) : operand (o.text ++ r) ≠ .absent := by
  rw [operand_text o hr]
  exact Reading.counted_ne_absent

theorem operand_cases (s : List Char) :
    operand s = .absent ∨ ∃ (o : Grammar.Operand) (r : List Char), s = o.text ++ r ∧ o.Closed r := by
  obtain ⟨g, hg⟩ := exists_gap s
  cases hs : skip s with
  | nil =>
      left
      simp only [operand, hs]
  | cons c u =>
      rw [hs] at hg
      by_cases h₁ : c = '='
      · subst h₁
        rcases integer_cases u with h | ⟨g₂, sign, d, r, rfl, hr⟩
        · left
          simp only [operand, hs, ↓reduceIte, h]
          rfl
        · right
          exact ⟨.constant g g₂ sign d, r, by rw [hg]; simp [Grammar.Operand.text], hr⟩
      · by_cases h₂ : c = '*'
        · subst h₂
          rcases register_cases u with h | ⟨g₂, d, r, rfl, hr⟩
          · left
            simp only [operand, hs, h₁, ↓reduceIte, h]
            rfl
          · right
            exact ⟨.indirect g g₂ d, r, by rw [hg]; simp [Grammar.Operand.text], hr⟩
        · by_cases h₃ : c.isDigit = true
          · right
            rcases exists_digits Char.isDigit (c :: u) with h | ⟨d, r, hd, hr⟩
            · rw [h.head] at h₃; cases h₃
            · exact ⟨.direct g d, r, by rw [hg, hd]; simp [Grammar.Operand.text], hr⟩
          · cases ht : tag? (c :: u) with
            | none =>
                left
                simp only [operand, hs, h₁, h₂, h₃, ↓reduceIte, ht]
                rfl
            | some e =>
                right
                obtain ⟨g', n, h, -, hr⟩ :=
                  tag?_eq_some_iff.mp (show tag? (c :: u) = some (e.1, e.2) from ht)
                have hc : Ends isGap (c :: u) := hs ▸ Text.ends_dropWhile isGap s
                obtain ⟨-, h'⟩ := gap_unique (g := noGap) hc (ends_isGap_tag n) h
                exact ⟨.tag g n, e.2, by rw [hg, h']; simp [Grammar.Operand.text], hr⟩

/-- An operand is found in the text in one way only. -/
theorem operand_unique {o o' : Grammar.Operand} {t : List Char} (hr : o.Closed r) (ht : o'.Closed t)
    (h : o.text ++ r = o'.text ++ t) : o = o' ∧ r = t := by
  obtain ⟨g, c, u, ho, hc, ha⟩ := operand_starts o
  obtain ⟨g', c', u', ho', hc', ha'⟩ := operand_starts o'
  have hcc : c = c' := by
    rw [ho, ho', List.append_assoc, List.append_assoc] at h
    obtain ⟨-, h⟩ := gap_unique (.cons (startsOperand_not_isGap hc)) (.cons (startsOperand_not_isGap hc')) h
    exact (List.cons.inj h).1
  rw [hcc, ha'] at ha
  clear ho ho' hc hc' ha' hcc
  -- the first character fixes the kind of the operand, which leaves one case for each kind
  cases o <;> cases o' <;> cases ha
  case constant.constant g₁ g₂ sign d g₁' g₂' sign' d' =>
      simp only [Grammar.Operand.text, List.append_assoc, List.cons_append] at h
      obtain ⟨rfl, h₁⟩ := gap_unique (.cons (by decide)) (.cons (by decide)) h
      obtain ⟨rfl, h₂⟩ := gap_unique (ends_isGap_number sign d) (ends_isGap_number sign' d')
        (List.cons.inj h₁).2
      obtain ⟨rfl, h₃⟩ := sign_unique h₂
      obtain ⟨rfl, rfl⟩ := digits_unique hr ht h₃
      exact ⟨rfl, rfl⟩
  case indirect.indirect g₁ g₂ d g₁' g₂' d' =>
      simp only [Grammar.Operand.text, List.append_assoc, List.cons_append] at h
      obtain ⟨rfl, h₁⟩ := gap_unique (.cons (by decide)) (.cons (by decide)) h
      obtain ⟨rfl, h₂⟩ := gap_unique (ends_digits d fun _ => isGap_of_isDigit)
        (ends_digits d' fun _ => isGap_of_isDigit) (List.cons.inj h₁).2
      obtain ⟨rfl, rfl⟩ := digits_unique hr ht h₂
      exact ⟨rfl, rfl⟩
  case direct.direct g d g' d' =>
      simp only [Grammar.Operand.text, List.append_assoc] at h
      obtain ⟨rfl, h₁⟩ := gap_unique (ends_digits d fun _ => isGap_of_isDigit)
        (ends_digits d' fun _ => isGap_of_isDigit) h
      obtain ⟨rfl, rfl⟩ := digits_unique hr ht h₁
      exact ⟨rfl, rfl⟩
  case tag.tag g n g' n' =>
      simp only [Grammar.Operand.text, List.append_assoc] at h
      obtain ⟨rfl, h₁⟩ := gap_unique (ends_isGap_tag n) (ends_isGap_tag n') h
      obtain ⟨rfl, rfl⟩ := tag_unique hr ht h₁
      exact ⟨rfl, rfl⟩

/-! ## Commands -/

/-- The command goes no further. -/
def Stops (r : List Char) (c : Command) : Prop :=
  Ends continuesKeyword (c.argument ++ r) ∧
    match c.operand with
    | some o => o.Closed r
    | none => operand r = .absent

theorem opcode?_text (c : Command) (h : Ends continuesKeyword (c.argument ++ r)) :
    opcode? (c.text ++ r) = some (c.keyword.op, c.argument ++ r) := by
  refine opcode?_eq_some_iff.mpr (keyword?_eq_some_iff.mpr ⟨c.gap, c.keyword, rfl, ?_, h⟩)
  simp only [Command.text, List.append_assoc]

theorem command_text (c : Command) (h : Stops r c) :
    command (c.text ++ r) = .counted c.length c.value r := by
  obtain ⟨g, k, o, hc⟩ := c
  obtain ⟨hk, ho⟩ := h
  cases o with
  | some o =>
      have hop : operand (Command.argument ⟨g, k, some o, hc⟩ ++ r) = .counted o.length o.value r :=
        operand_text o ho
      have hlen : Command.length ⟨g, k, some o, hc⟩ = o.length := rfl
      unfold command
      simp only [opcode?_text _ hk, hop, hlen]
      by_cases hl : o.length ≤ digitLimit
      · simp only [Reading.counted_of_le hl]
        rfl
      · simp only [Reading.counted_of_not_le hl]
  | none =>
      have hhalt : k.op = .halt := by
        by_contra hne
        exact hc hne rfl
      have hop : operand (Command.argument ⟨g, k, none, hc⟩ ++ r) = .absent := ho
      unfold command
      simp only [opcode?_text _ hk, hop, hhalt, ↓reduceIte, Reading.counted, Command.length, Option.map_none,
        Option.getD_none, Nat.zero_le, Command.value, Reading.token.injEq]
      exact ⟨trivial, rfl⟩

theorem command_ne_absent (c : Command) (h : Stops r c) : command (c.text ++ r) ≠ .absent := by
  rw [command_text c h]
  exact Reading.counted_ne_absent

theorem command_cases (s : List Char) :
    command s = .absent ∨ ∃ (c : Command) (r : List Char), s = c.text ++ r ∧ Stops r c := by
  cases hop : opcode? s with
  | none =>
      left
      simp only [command, hop]
  | some e =>
      obtain ⟨op, t⟩ := e
      obtain ⟨g, k, rfl, rfl, ht⟩ := keyword?_eq_some_iff.mp (opcode?_eq_some_iff.mp hop)
      rcases operand_cases t with h | ⟨o, r, rfl, ho⟩
      · by_cases hhalt : k.op = .halt
        · right
          exact ⟨⟨g, k, none, absurd hhalt⟩, t, by simp [Command.text, Command.argument], ht, h⟩
        · left
          simp only [command, hop, h, hhalt, ↓reduceIte]
      · right
        exact ⟨⟨g, k, some o, nofun⟩, r, by simp [Command.text, Command.argument], ht, ho⟩

/-- A command is found in the text in one way only. -/
theorem command_unique {c c' : Command} {t : List Char} (hr : Stops r c) (ht : Stops t c')
    (h : c.text ++ r = c'.text ++ t) : c = c' ∧ r = t := by
  obtain ⟨g, k, o, hc⟩ := c
  obtain ⟨g', k', o', hc'⟩ := c'
  simp only [Command.text, List.append_assoc] at h
  obtain ⟨rfl, h₁⟩ := gap_unique (ends_isGap_keyword k) (ends_isGap_keyword k') h
  obtain ⟨rfl, h₂⟩ := keyword_unique h₁
  cases o with
  | none =>
      cases o' with
      | none => exact ⟨rfl, h₂⟩
      | some o' =>
          refine absurd hr.2 ?_
          rw [show r = o'.text ++ t from h₂]
          exact operand_ne_absent o' ht.2
  | some o =>
      cases o' with
      | none =>
          refine absurd ht.2 ?_
          rw [show t = o.text ++ r from h₂.symm]
          exact operand_ne_absent o hr.2
      | some o' =>
          obtain ⟨rfl, rfl⟩ := operand_unique hr.2 ht.2 h₂
          exact ⟨rfl, rfl⟩

/-! ## Statements -/

def labelOf : Grammar.Statement → Option Label
  | .nothing => none
  | .label l => some l
  | .instruction l _ => l

def commandOf : Grammar.Statement → Option Command
  | .instruction _ c => some c
  | _ => none

def commandText (t : Grammar.Statement) : List Char := ((commandOf t).map Command.text).getD []

theorem statement_parts (t : Grammar.Statement) :
    t.text = ((labelOf t).map Label.text).getD [] ++ commandText t := by
  cases t with
  | nothing => rfl
  | label l => exact (List.append_nil _).symm
  | instruction l c => rfl

theorem statement_ext {t t' : Grammar.Statement} (hl : labelOf t = labelOf t')
    (hc : commandOf t = commandOf t') : t = t' := by
  cases t <;> cases t' <;> simp_all [labelOf, commandOf]

/-- The choices that lead to the statement, with `r` left over. -/
def Chosen (r : List Char) (t : Grammar.Statement) : Prop :=
  (labelOf t = none → label? (commandText t ++ r) = none) ∧
    match commandOf t with
    | none => command r = .absent
    | some c => Stops r c

theorem label?_text (l : Label) : label? (l.text ++ s) = some (l.value, s) :=
  label?_eq_some_iff.mpr ⟨l, rfl, rfl⟩

theorem statement_text (t : Grammar.Statement) (h : Chosen r t) :
    statement (t.text ++ r) =
      if t.length ≤ digitLimit then .ok (t.value, r) else .error (.reading t.length) := by
  cases t with
  | nothing =>
      have hl : label? r = none := h.1 rfl
      have hc : command r = .absent := h.2
      simp only [Grammar.Statement.text, List.nil_append, statement, hl, hc]
      rfl
  | label l =>
      have hc : command r = .absent := h.2
      simp only [Grammar.Statement.text, statement, label?_text, hc]
      rfl
  | instruction l c =>
      have hc : Stops r c := h.2
      have hlen : Grammar.Statement.length (.instruction l c) = c.length := rfl
      cases l with
      | none =>
          have hl : label? (c.text ++ r) = none := h.1 rfl
          have hs : Grammar.Statement.text (.instruction none c) ++ r = c.text ++ r := by
            simp [Grammar.Statement.text]
          simp only [hs, statement, hl, command_text c hc, hlen]
          by_cases hn : c.length ≤ digitLimit
          · simp only [Reading.counted_of_le hn, if_pos hn]
            rfl
          · simp only [Reading.counted_of_not_le hn, if_neg hn]
      | some l =>
          have hs : Grammar.Statement.text (.instruction (some l) c) ++ r = l.text ++ (c.text ++ r) := by
            simp [Grammar.Statement.text]
          simp only [hs, statement, label?_text, command_text c hc, hlen]
          by_cases hn : c.length ≤ digitLimit
          · simp only [Reading.counted_of_le hn, if_pos hn]
            rfl
          · simp only [Reading.counted_of_not_le hn, if_neg hn]

/-- Every line starts with a statement, if only with the one that says nothing. -/
theorem exists_chosen (s : List Char) :
    ∃ (t : Grammar.Statement) (r : List Char), s = t.text ++ r ∧ Chosen r t := by
  cases hl : label? s with
  | none =>
      rcases command_cases s with hc | ⟨c, r, rfl, hc⟩
      · exact ⟨.nothing, s, rfl, fun _ => hl, hc⟩
      · exact ⟨.instruction none c, r, by simp [Grammar.Statement.text], fun _ => hl, hc⟩
  | some e =>
      obtain ⟨l, rfl, -⟩ := label?_eq_some_iff.mp (show label? s = some (e.1, e.2) from hl)
      rcases command_cases e.2 with hc | ⟨c, r, hr, hc⟩
      · exact ⟨.label l, e.2, rfl, nofun, hc⟩
      · exact ⟨.instruction (some l) c, r, by simp [Grammar.Statement.text, ← hr], nofun, hc⟩

theorem Chosen.commandOf_unique {t t' : Grammar.Statement} {r' : List Char} (hr : Chosen r t)
    (hr' : Chosen r' t') (h : commandText t ++ r = commandText t' ++ r') :
    commandOf t = commandOf t' ∧ r = r' := by
  have hc := hr.2
  have hc' := hr'.2
  unfold commandText at h
  cases ht : commandOf t with
  | none =>
      cases ht' : commandOf t' with
      | none =>
          rw [ht, ht'] at h
          exact ⟨rfl, h⟩
      | some c' =>
          rw [ht, ht'] at h
          rw [ht] at hc
          rw [ht'] at hc'
          refine absurd hc ?_
          rw [show r = c'.text ++ r' from h]
          exact command_ne_absent c' hc'
  | some c =>
      cases ht' : commandOf t' with
      | none =>
          rw [ht, ht'] at h
          rw [ht] at hc
          rw [ht'] at hc'
          refine absurd hc' ?_
          rw [show r' = c.text ++ r from h.symm]
          exact command_ne_absent c hc
      | some c' =>
          rw [ht, ht'] at h
          rw [ht] at hc
          rw [ht'] at hc'
          obtain ⟨rfl, rfl⟩ := command_unique hc hc' h
          exact ⟨rfl, rfl⟩

/-- A statement is found in the text in one way only. -/
theorem statement_unique {t t' : Grammar.Statement} {r' : List Char} (hr : Chosen r t) (hr' : Chosen r' t')
    (h : t.text ++ r = t'.text ++ r') : t = t' ∧ r = r' := by
  rw [statement_parts, statement_parts, List.append_assoc, List.append_assoc] at h
  have hlabel : labelOf t = labelOf t' ∧ commandText t ++ r = commandText t' ++ r' := by
    cases ht : labelOf t with
    | none =>
        cases ht' : labelOf t' with
        | none =>
            rw [ht, ht'] at h
            exact ⟨rfl, h⟩
        | some l' =>
            rw [ht, ht'] at h
            have hn := hr.1 ht
            rw [show commandText t ++ r = l'.text ++ (commandText t' ++ r') from h, label?_text] at hn
            cases hn
    | some l =>
        cases ht' : labelOf t' with
        | none =>
            rw [ht, ht'] at h
            have hn := hr'.1 ht'
            rw [show commandText t' ++ r' = l.text ++ (commandText t ++ r) from h.symm, label?_text] at hn
            cases hn
        | some l' =>
            rw [ht, ht'] at h
            obtain ⟨rfl, hc⟩ := label_unique h
            exact ⟨rfl, hc⟩
  obtain ⟨hc, rfl⟩ := hr.commandOf_unique hr' hlabel.2
  exact ⟨statement_ext hlabel.1 hc, rfl⟩

end RandomAccess.Source

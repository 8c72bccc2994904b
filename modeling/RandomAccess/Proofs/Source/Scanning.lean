import RandomAccess.Proofs.Numeral
import RandomAccess.Proofs.Source.Grammar
import RandomAccess.Proofs.Text.Ascii

/-!
# Tokens as the readers see them

A reader finds a token exactly where the text starts with a gap and the token. Numbers and tags reach
as far as their characters do, and of two keywords none starts the other, so a token is read in one
way only.
-/

namespace RandomAccess.Source

open Text (Ends)
open Grammar (Gap Tag Digits Sign Letter Keyword Label)

variable {s r : List Char}

/-! ## Gaps -/

theorem isGap_iff {c : Char} : isGap c = true ↔ c = ' ' ∨ c = '\t' ∨ c = '\n' ∨ c = '\r' := by
  simp [isGap, or_assoc]

/-- A class that leaves out the four gap characters has no gap character in it. -/
theorem not_isGap {p : Char → Bool} {c : Char} (hc : p c = true)
    (hp : p ' ' = false ∧ p '\t' = false ∧ p '\n' = false ∧ p '\r' = false) : isGap c = false := by
  cases hg : isGap c with
  | false => rfl
  | true =>
      rcases isGap_iff.mp hg with rfl | rfl | rfl | rfl <;> simp_all

theorem exists_gap (s : List Char) : ∃ g : Gap, s = g.text ++ skip s :=
  ⟨⟨s.takeWhile isGap, fun _ => Text.mem_takeWhile⟩, List.takeWhile_append_dropWhile.symm⟩

theorem skip_gap (g : Gap) (hs : Ends isGap s) : skip (g.text ++ s) = s :=
  Text.dropWhile_run g.isGap hs

theorem gap_unique {g g' : Gap} {t : List Char} (hs : Ends isGap s) (ht : Ends isGap t)
    (h : g.text ++ s = g'.text ++ t) : g = g' ∧ s = t := by
  obtain ⟨hg, hst⟩ := Text.run_unique g.isGap hs g'.isGap ht h
  exact ⟨Gap.ext hg, hst⟩

theorem symbol?_eq_some_iff {c : Char} (hc : isGap c = false) :
    symbol? c s = some r ↔ ∃ g : Gap, s = g.text ++ c :: r := by
  constructor
  · intro h
    obtain ⟨g, hg⟩ := exists_gap s
    unfold symbol? at h
    split at h
    · rename_i d t hs
      split at h
      · rename_i hd
        cases h
        exact ⟨g, by rw [hg, hs, hd]⟩
      · cases h
    · cases h
  · rintro ⟨g, rfl⟩
    simp only [symbol?, skip_gap g (.cons hc), ↓reduceIte]

/-! ## Tags -/

theorem isTagChar_of_isTagStart {c : Char} (h : isTagStart c = true) : isTagChar c = true := by
  simp only [isTagStart, isTagChar, Char.isAlphanum, Bool.or_eq_true] at h ⊢
  tauto

theorem toNat_lt_of_isTagChar {c : Char} (h : isTagChar c = true) : c.toNat < 128 := by
  simp only [isTagChar, Bool.or_eq_true, decide_eq_true_eq] at h
  rcases h with h | rfl
  · exact Text.toNat_lt_of_isAlphanum h
  · decide

theorem ends_isGap_tag (n : Tag) : Ends isGap (n.text ++ s) :=
  .cons (not_isGap n.isTagStart (by decide))

theorem tag_chars (n : Tag) : ∀ c ∈ n.text, isTagChar c = true := by
  intro c hc
  rcases List.mem_cons.mp hc with rfl | hc
  · exact isTagChar_of_isTagStart n.isTagStart
  · exact n.isTagChar c hc

theorem tag_unique {n n' : Tag} {t : List Char} (hs : Ends isTagChar s) (ht : Ends isTagChar t)
    (h : n.text ++ s = n'.text ++ t) : n = n' ∧ s = t := by
  obtain ⟨hn, hst⟩ := Text.run_unique (tag_chars n) hs (tag_chars n') ht h
  obtain ⟨h₁, h₂⟩ := List.cons.inj hn
  exact ⟨Tag.ext h₁ h₂, hst⟩

theorem tag?_eq_some_iff {t : String} :
    tag? s = some (t, r) ↔
      ∃ (g : Gap) (n : Tag), s = g.text ++ (n.text ++ r) ∧ t = n.value ∧ Ends isTagChar r := by
  constructor
  · intro h
    obtain ⟨g, hg⟩ := exists_gap s
    unfold tag? at h
    split at h
    · rename_i c u hs
      split at h
      · rename_i hc
        cases h
        refine ⟨g, ⟨c, u.takeWhile isTagChar, hc, fun _ => Text.mem_takeWhile⟩, ?_, rfl,
          Text.ends_dropWhile _ u⟩
        rw [hg, hs]
        simp [Tag.text]
      · cases h
    · cases h
  · rintro ⟨g, n, rfl, rfl, hr⟩
    have hs : skip (g.text ++ (n.text ++ r)) = n.first :: (n.rest ++ r) := skip_gap g (ends_isGap_tag n)
    simp only [tag?, hs, n.isTagStart, ↓reduceIte, Text.takeWhile_run n.isTagChar hr,
      Text.dropWhile_run n.isTagChar hr]
    rfl

/-- The colon of a label, or the gap before it, ends what stands before. -/
theorem ends_colon {p : Char → Bool} (g : Gap) (hp : p ':' = false)
    (hg : p ' ' = false ∧ p '\t' = false ∧ p '\n' = false ∧ p '\r' = false) :
    Ends p (g.text ++ ':' :: s) := by
  intro c t h
  cases htext : g.text with
  | nil =>
      rw [htext] at h
      cases h
      exact hp
  | cons d u =>
      rw [htext] at h
      cases h
      cases hc : p c with
      | false => rfl
      | true =>
          have hd := g.isGap c (by simp [htext])
          rw [not_isGap hc hg] at hd
          cases hd

theorem ends_isTagChar_colon (g : Gap) : Ends isTagChar (g.text ++ ':' :: s) :=
  ends_colon g (by decide) (by decide)

theorem label?_eq_some_iff {t : String} :
    label? s = some (t, r) ↔ ∃ l : Label, s = l.text ++ r ∧ t = l.value := by
  have hcolon : isGap ':' = false := by decide
  unfold label?
  simp only [Option.bind_eq_bind, Option.bind_eq_some_iff, Option.pure_def, Option.some.injEq,
    Prod.exists, tag?_eq_some_iff, symbol?_eq_some_iff hcolon]
  constructor
  · rintro ⟨_, u, ⟨g₁, n, rfl, rfl, -⟩, _, ⟨g₂, rfl⟩, ⟨⟩⟩
    exact ⟨⟨g₁, n, g₂⟩, by simp [Label.text], rfl⟩
  · rintro ⟨⟨g₁, n, g₂⟩, rfl, rfl⟩
    exact ⟨_, g₂.text ++ ':' :: r, ⟨g₁, n, by simp [Label.text], rfl, ends_isTagChar_colon g₂⟩, r,
      ⟨g₂, rfl⟩, rfl⟩

theorem label_unique {l l' : Label} {t : List Char} (h : l.text ++ s = l'.text ++ t) :
    l = l' ∧ s = t := by
  obtain ⟨g₁, n, g₂⟩ := l
  obtain ⟨g₁', n', g₂'⟩ := l'
  simp only [Label.text, List.append_assoc, List.cons_append, List.nil_append] at h
  obtain ⟨rfl, h₁⟩ := gap_unique (ends_isGap_tag n) (ends_isGap_tag n') h
  obtain ⟨rfl, h₂⟩ := tag_unique (ends_isTagChar_colon g₂) (ends_isTagChar_colon g₂') h₁
  obtain ⟨rfl, h₃⟩ := gap_unique (.cons (by decide)) (.cons (by decide)) h₂
  exact ⟨rfl, (List.cons.inj h₃).2⟩

/-! ## Keywords -/

theorem toUpper_eq_iff {c d : Char} (hd : d.isUpper = true) :
    c.toUpper = d ↔ c = d ∨ c = d.toLower := by
  have hA : 'A'.val ≤ d.val ∧ d.val ≤ 'Z'.val := by simpa [Char.isUpper] using hd
  have hn : 65 ≤ d.val.toNat ∧ d.val.toNat ≤ 90 := hA
  have hl : d.toLower.val = d.val + 32 := by rw [Char.toLower, dif_pos hA]; rfl
  have hl' : (d.val + 32).toNat = (d.val.toNat + 32) % 4294967296 := by
    rw [UInt32.toNat_add]; rfl
  rw [Char.ext_iff, Char.ext_iff, Char.ext_iff, hl]
  simp only [← UInt32.toNat_inj]
  by_cases hc : 'a'.val ≤ c.val ∧ c.val ≤ 'z'.val
  · have hm : 97 ≤ c.val.toNat ∧ c.val.toNat ≤ 122 := hc
    have hu : c.toUpper.val = c.val + 4294967264 := by rw [Char.toUpper, dif_pos hc]; rfl
    have hu' : (c.val + 4294967264).toNat = (c.val.toNat + 4294967264) % 4294967296 := by
      rw [UInt32.toNat_add]; rfl
    rw [hu, hu', hl']
    omega
  · have hm : ¬ (97 ≤ c.val.toNat ∧ c.val.toNat ≤ 122) := hc
    have hu : c.toUpper = c := by rw [Char.toUpper, dif_neg hc]
    rw [hu, hl']
    omega

theorem capital_eq_iff {c d : Char} (hd : d.isUpper = true) : capital c = d ↔ Letter d c := by
  have hL : Letter d c ↔ c.toUpper = d ∨ d = 'I' ∧ c = '\u0131' ∨ d = 'S' ∧ c = '\u017F' := by
    rw [Letter, toUpper_eq_iff hd, or_assoc]
  rw [hL]
  unfold capital
  by_cases h₁ : c = '\u0131'
  · have hne : '\u0131' ≠ d := by rintro rfl; exact absurd hd (by decide)
    subst h₁
    simp [hne, eq_comm]
  · by_cases h₂ : c = '\u017F'
    · have hne : '\u017F' ≠ d := by rintro rfl; exact absurd hd (by decide)
      subst h₂
      simp [hne, eq_comm]
    · simp [h₁, h₂]

theorem mnemonic_isUpper (op : Opcode) : ∀ d ∈ op.mnemonic.toList, d.isUpper = true := by
  have h : op.mnemonic.toList.all Char.isUpper = true := by cases op <;> decide
  exact List.all_eq_true.mp h

theorem mnemonic_ne_nil (op : Opcode) : op.mnemonic.toList ≠ [] := by
  cases op <;> decide

theorem spelled_iff (op : Opcode) {w : List Char} :
    w.map capital = op.mnemonic.toList ↔ List.Forall₂ Letter op.mnemonic.toList w := by
  have h := mnemonic_isUpper op
  generalize op.mnemonic.toList = ds at h
  induction ds generalizing w with
  | nil => cases w <;> simp
  | cons d ds ih =>
      cases w with
      | nil => simp
      | cons c w =>
          rw [List.map_cons, List.cons.injEq, List.forall₂_cons]
          exact and_congr (capital_eq_iff (h d (by simp))) (ih fun x hx => h x (by simp [hx]))

theorem keyword_capital (k : Keyword) : k.text.map capital = k.op.mnemonic.toList :=
  (spelled_iff k.op).mpr k.spelled

/-- No character of a keyword can be taken for a gap or a mark. -/
theorem keyword_chars (k : Keyword) : ∀ c ∈ k.text, (capital c).isUpper = true := by
  intro c hc
  refine mnemonic_isUpper k.op _ ?_
  rw [← keyword_capital k]
  exact List.mem_map_of_mem hc

theorem keyword_ne_nil (k : Keyword) : k.text ≠ [] := by
  intro h
  have hk := keyword_capital k
  rw [h] at hk
  exact mnemonic_ne_nil k.op hk.symm

/-- A keyword starts with none of the characters of a class without capital letters. -/
theorem ends_keyword {p : Char → Bool} (k : Keyword)
    (hp : ∀ c, p c = true → (capital c).isUpper = false) : Ends p (k.text ++ s) := by
  refine Text.ends_append ?_ (keyword_ne_nil k)
  intro c r h
  have hc := keyword_chars k c (by simp [h])
  cases hpc : p c with
  | false => rfl
  | true => rw [hp c hpc] at hc; cases hc

theorem ends_isGap_keyword (k : Keyword) : Ends isGap (k.text ++ s) := by
  refine ends_keyword k fun c hc => ?_
  rcases isGap_iff.mp hc with rfl | rfl | rfl | rfl <;> decide

theorem keyword?_eq_some_iff {op : Opcode} :
    keyword? op s = some r ↔
      ∃ (g : Gap) (k : Keyword), k.op = op ∧ s = g.text ++ (k.text ++ r) ∧ Ends continuesKeyword r := by
  have hends : ∀ u : List Char, ¬ u.head?.any continuesKeyword = true ↔ Ends continuesKeyword u := by
    intro u
    cases u with
    | nil => simp [Text.Ends.nil]
    | cons c u =>
        constructor
        · intro h; exact .cons (by simpa using h)
        · intro h; simp [h.head]
  unfold keyword?
  constructor
  · intro h
    obtain ⟨g, hg⟩ := exists_gap s
    dsimp only at h
    split at h
    · rename_i hk
      cases h
      refine ⟨g, ⟨op, _, (spelled_iff op).mp hk.1⟩, rfl, ?_, (hends _).mp hk.2⟩
      simpa using hg
    · cases h
  · rintro ⟨g, k, rfl, rfl, hr⟩
    have hl : k.op.mnemonic.toList.length = k.text.length := by
      rw [← keyword_capital k, List.length_map]
    simp only [skip_gap g (ends_isGap_keyword k), hl, List.take_left', List.drop_left']
    rw [if_pos ⟨keyword_capital k, (hends r).mpr hr⟩]

theorem op_eq_of_mnemonic {op op' : Opcode} (h : op.mnemonic.toList <+: op'.mnemonic.toList) :
    op = op' := by
  revert h
  cases op <;> cases op' <;> decide

/-- Two keywords at the same place are the same. -/
theorem keyword_unique {k k' : Keyword} {t : List Char} (h : k.text ++ s = k'.text ++ t) :
    k = k' ∧ s = t := by
  have hop : k.op = k'.op := by
    have hp : k.text.map capital <+: k'.text.map capital ∨
        k'.text.map capital <+: k.text.map capital := by
      rcases List.append_eq_append_iff.mp h with ⟨u, hu, -⟩ | ⟨u, hu, -⟩
      · exact Or.inl ⟨u.map capital, by rw [hu, List.map_append]⟩
      · exact Or.inr ⟨u.map capital, by rw [hu, List.map_append]⟩
    rw [keyword_capital, keyword_capital] at hp
    rcases hp with hp | hp
    · exact op_eq_of_mnemonic hp
    · exact (op_eq_of_mnemonic hp).symm
  have hl : k.text.length = k'.text.length := by
    rw [← List.length_map (f := capital), keyword_capital, hop, ← keyword_capital, List.length_map]
  obtain ⟨ht, hst⟩ := List.append_inj h hl
  exact ⟨Keyword.ext hop ht, hst⟩

theorem opcode?_eq_some_iff {op : Opcode} :
    opcode? s = some (op, r) ↔ keyword? op s = some r := by
  unfold opcode?
  constructor
  · intro h
    obtain ⟨op', -, h'⟩ := List.exists_of_findSome?_eq_some h
    simp only [Option.map_eq_some_iff, Prod.mk.injEq] at h'
    obtain ⟨_, hk, rfl, rfl⟩ := h'
    exact hk
  · intro h
    cases hf : Opcode.all.findSome? fun op => (keyword? op s).map (op, ·) with
    | none =>
        have hn := List.findSome?_eq_none_iff.mp hf op (by cases op <;> decide)
        simp [h] at hn
    | some e =>
        obtain ⟨op', -, h'⟩ := List.exists_of_findSome?_eq_some hf
        simp only [Option.map_eq_some_iff] at h'
        obtain ⟨r', hk, rfl⟩ := h'
        obtain ⟨g, k, rfl, rfl, -⟩ := keyword?_eq_some_iff.mp h
        obtain ⟨g', k', rfl, hs, -⟩ := keyword?_eq_some_iff.mp hk
        obtain ⟨-, hk'⟩ := gap_unique (ends_isGap_keyword k) (ends_isGap_keyword k') hs
        obtain ⟨rfl, rfl⟩ := keyword_unique hk'
        rfl

theorem opcode?_eq_none_of_ends {p : Char → Bool} (hs : Ends p (skip s))
    (hp : ∀ c, (capital c).isUpper = true → p c = true) : opcode? s = none := by
  cases h : opcode? s with
  | none => rfl
  | some e =>
      obtain ⟨g, k, -, rfl, -⟩ := keyword?_eq_some_iff.mp
        (opcode?_eq_some_iff.mp (show opcode? s = some (e.1, e.2) from h))
      rw [skip_gap g (ends_isGap_keyword k)] at hs
      obtain ⟨c, w, hc⟩ := List.exists_cons_of_ne_nil (keyword_ne_nil k)
      have hu := hp c (keyword_chars k c (by simp [hc]))
      rw [hc] at hs
      rw [hs.head] at hu
      cases hu

/-! ## Numbers -/

/-- A token with a number of `n` digits. -/
def Reading.counted {α : Type} (n : Nat) (v : α) (r : List Char) : Reading α :=
  if n ≤ digitLimit then .token v r else .tooLong (.reading n)

section

variable {α : Type} {n : Nat} {v : α}

theorem Reading.counted_of_le (h : n ≤ digitLimit) : Reading.counted n v r = .token v r := if_pos h

theorem Reading.counted_of_not_le (h : ¬ n ≤ digitLimit) : Reading.counted n v r = .tooLong (.reading n) :=
  if_neg h

theorem Reading.counted_ne_absent : Reading.counted n v r ≠ .absent := by
  unfold Reading.counted
  split <;> nofun

end

theorem Reading.map_counted {α β : Type} (f : α → β) (n : Nat) (v : α) (r : List Char) :
    (Reading.counted n v r).map f = .counted n (f v) r := by
  unfold Reading.counted
  split <;> rfl

theorem row_eq_absent {p : Char → Bool} (hs : Ends p s) : row p s = .absent := by
  simp only [row, hs.takeWhile]

theorem row_digits {p : Char → Bool} (d : Digits p) (hr : Ends p r) :
    row p (d.text ++ r) = .counted d.text.length d.value r := by
  simp only [row, Text.takeWhile_run d.isDigit hr, Text.dropWhile_run d.isDigit hr]
  obtain ⟨c, u, hc⟩ := List.exists_cons_of_ne_nil d.ne_nil
  simp only [Digits.value, ← Numeral.ofDigits_eq, hc, Numeral.ofRow, Reading.counted]
  by_cases hl : (c :: u).length ≤ digitLimit
  · simp only [if_pos hl]
  · simp only [if_neg hl]

/-- A text starts with a row of digits or goes on with something else. -/
theorem exists_digits (p : Char → Bool) (s : List Char) :
    Ends p s ∨ ∃ (d : Digits p) (r : List Char), s = d.text ++ r ∧ Ends p r := by
  cases h : s.takeWhile p with
  | nil =>
      left
      rw [← List.takeWhile_append_dropWhile (p := p) (l := s), h]
      exact Text.ends_dropWhile p s
  | cons c u =>
      right
      refine ⟨⟨s.takeWhile p, by simp [h], fun _ => Text.mem_takeWhile⟩, s.dropWhile p,
        List.takeWhile_append_dropWhile.symm, Text.ends_dropWhile p s⟩

theorem ends_digits {p q : Char → Bool} (d : Digits p) (h : ∀ c, p c = true → q c = false) :
    Ends q (d.text ++ s) := by
  refine Text.ends_append ?_ d.ne_nil
  intro c u hc
  exact h c (d.isDigit c (by simp [hc]))

theorem digits_unique {p : Char → Bool} {d d' : Digits p} {t : List Char} (hs : Ends p s)
    (ht : Ends p t) (h : d.text ++ s = d'.text ++ t) : d = d' ∧ s = t := by
  obtain ⟨hd, hst⟩ := Text.run_unique d.isDigit hs d'.isDigit ht h
  exact ⟨Digits.ext hd, hst⟩

theorem isDecimalDigit_not_sign {c : Char} (h : Text.isDecimalDigit c = true) :
    c ≠ '+' ∧ c ≠ '-' := by
  constructor
  · rintro rfl; exact absurd h (by decide)
  · rintro rfl; exact absurd h (by decide)

/-- The sign of a number is seen by its first character. -/
theorem sign_text (g : Sign) (d : Digits Text.isDecimalDigit) :
    Numeral.sign (g.text ++ (d.text ++ s)) = (match g with | .minus => true | _ => false, d.text ++ s) := by
  obtain ⟨c, u, hc⟩ := List.exists_cons_of_ne_nil d.ne_nil
  have hd := isDecimalDigit_not_sign (d.isDigit c (by simp [hc]))
  cases g with
  | none =>
      rw [Sign.text, hc]
      simp [Numeral.sign, hd]
  | plus => rfl
  | minus => rfl

theorem sign_unique {g g' : Sign} {d d' : Digits Text.isDecimalDigit} {t : List Char}
    (h : g.text ++ (d.text ++ s) = g'.text ++ (d'.text ++ t)) : g = g' ∧ d.text ++ s = d'.text ++ t := by
  have hs := congrArg (fun u => (u.head?, Numeral.sign u)) h
  simp only [sign_text, Prod.mk.injEq] at hs
  obtain ⟨hh, hm, hst⟩ := hs
  refine ⟨?_, hst⟩
  obtain ⟨c, u, hc⟩ := List.exists_cons_of_ne_nil d.ne_nil
  obtain ⟨c', u', hc'⟩ := List.exists_cons_of_ne_nil d'.ne_nil
  have hd := isDecimalDigit_not_sign (d.isDigit c (by simp [hc]))
  have hd' := isDecimalDigit_not_sign (d'.isDigit c' (by simp [hc']))
  cases g <;> cases g' <;> simp_all [Sign.text]

theorem signed_eq_apply (g : Sign) (n : Nat) :
    Numeral.signed (match g with | .minus => true | _ => false) n = g.apply n := by
  cases g <;> rfl

theorem exists_sign (s : List Char) : ∃ g : Sign, s = g.text ++ (Numeral.sign s).2 ∧
    ∀ n, Numeral.signed (Numeral.sign s).1 n = g.apply n := by
  unfold Numeral.sign
  split
  · exact ⟨.plus, rfl, fun _ => rfl⟩
  · exact ⟨.minus, rfl, fun _ => rfl⟩
  · exact ⟨.none, rfl, fun _ => rfl⟩

theorem ends_isGap_number (g : Sign) (d : Digits Text.isDecimalDigit) :
    Ends isGap (g.text ++ (d.text ++ s)) := by
  cases g with
  | none =>
      refine ends_digits d fun c hc => not_isGap hc ?_
      decide
  | plus => exact .cons (by decide)
  | minus => exact .cons (by decide)

theorem integer_text (g : Gap) (sign : Sign) (d : Digits Text.isDecimalDigit)
    (hr : Ends Text.isDecimalDigit r) :
    integer (g.text ++ (sign.text ++ (d.text ++ r))) =
      .counted d.text.length (sign.apply d.value) r := by
  rw [integer, skip_gap g (ends_isGap_number sign d), sign_text]
  simp only [row_digits d hr, Reading.map_counted, signed_eq_apply]

theorem integer_cases (s : List Char) :
    integer s = .absent ∨ ∃ (g : Gap) (sign : Sign) (d : Digits Text.isDecimalDigit) (r : List Char),
      s = g.text ++ (sign.text ++ (d.text ++ r)) ∧ Ends Text.isDecimalDigit r := by
  obtain ⟨g, hg⟩ := exists_gap s
  obtain ⟨sign, hsign, -⟩ := exists_sign (skip s)
  rcases exists_digits Text.isDecimalDigit (Numeral.sign (skip s)).2 with h | ⟨d, r, hd, hr⟩
  · left
    simp only [integer, row_eq_absent h]
    rfl
  · right
    refine ⟨g, sign, d, r, ?_, hr⟩
    rw [← hd, ← hsign]
    exact hg

theorem isGap_of_isDigit {c : Char} (h : c.isDigit = true) : isGap c = false :=
  not_isGap h (by decide)

theorem register_text (g : Gap) (d : Digits Char.isDigit) (hr : Ends Char.isDigit r) :
    register (g.text ++ (d.text ++ r)) = .counted d.text.length (d.value : Int) r := by
  rw [register, skip_gap g (ends_digits d fun c => isGap_of_isDigit), row_digits d hr,
    Reading.map_counted]
  rfl

theorem register_cases (s : List Char) :
    register s = .absent ∨ ∃ (g : Gap) (d : Digits Char.isDigit) (r : List Char),
      s = g.text ++ (d.text ++ r) ∧ Ends Char.isDigit r := by
  obtain ⟨g, hg⟩ := exists_gap s
  rcases exists_digits Char.isDigit (skip s) with h | ⟨d, r, hd, hr⟩
  · left
    simp only [register, row_eq_absent h]
    rfl
  · right
    exact ⟨g, d, r, by rw [← hd]; exact hg, hr⟩

end RandomAccess.Source

import RandomAccess.Proofs.Source.Scanning

/-!
# Tabs and the readers

A line is read after its tabs have become spaces. No token has a tab or a space in it, so each reader
finds the same token as before, and what follows it is the expanded rest.
-/

namespace RandomAccess.Source

open Text (Ends)

variable {p : Char → Bool} {s t : List Char}

/-- The second text is the first with one or more spaces for each tab; tabs may also stay. -/
inductive Expanded : List Char → List Char → Prop
  | nil : Expanded [] []
  | tab {s t : List Char} : Expanded s t → Expanded ('\t' :: s) (' ' :: t)
  | more {s t : List Char} : Expanded ('\t' :: s) t → Expanded ('\t' :: s) (' ' :: t)
  | cons {s t : List Char} (c : Char) : Expanded s t → Expanded (c :: s) (c :: t)

theorem Expanded.spaces (n : Nat) (h : Expanded s t) :
    Expanded ('\t' :: s) (List.replicate (n + 1) ' ' ++ t) := by
  induction n with
  | zero => exact .tab h
  | succ n ih => exact .more ih

theorem expanded_expandTabsFrom (col : Nat) (s : List Char) : Expanded s (Text.expandTabsFrom col s) := by
  induction s generalizing col with
  | nil => exact .nil
  | cons c r ih =>
      unfold Text.expandTabsFrom
      split
      · rename_i hc
        subst hc
        obtain ⟨n, hn⟩ : ∃ n, 8 - col % 8 = n + 1 := ⟨7 - col % 8, by omega⟩
        rw [hn]
        exact (ih _).spaces n
      · split
        · exact .cons c (ih 0)
        · exact .cons c (ih (col + 1))

/-! ## Runs -/

theorem Expanded.dropWhile (hp : p '\t' = p ' ') (h : Expanded s t) :
    Expanded (s.dropWhile p) (t.dropWhile p) := by
  induction h with
  | nil => exact .nil
  | tab h ih =>
      simp only [List.dropWhile_cons, hp]
      split
      · exact ih
      · exact .tab h
  | more h ih =>
      simp only [List.dropWhile_cons, hp] at ih ⊢
      split
      · rename_i hs
        rwa [if_pos hs] at ih
      · exact .more h
  | cons c h ih =>
      simp only [List.dropWhile_cons]
      split
      · exact ih
      · exact .cons c h

theorem Expanded.takeWhile (hp : p '\t' = false ∧ p ' ' = false) (h : Expanded s t) :
    s.takeWhile p = t.takeWhile p := by
  induction h with
  | nil => rfl
  | tab h ih => simp [hp]
  | more h ih => simp [hp]
  | cons c h ih => simp only [List.takeWhile_cons, ih]

theorem Expanded.skip (h : Expanded s t) : Expanded (skip s) (skip t) := h.dropWhile (by decide)

/-- After the gap both texts go on with the same character. -/
theorem Expanded.skip_cases (h : Expanded s t) :
    (Source.skip s = [] ∧ Source.skip t = []) ∨
      ∃ c s' t', Source.skip s = c :: s' ∧ Source.skip t = c :: t' ∧ Expanded s' t' := by
  have hs := Text.ends_dropWhile isGap s
  have hk := h.skip
  unfold Source.skip at hk ⊢
  generalize s.dropWhile isGap = s' at hs hk
  generalize t.dropWhile isGap = t' at hk
  cases hk with
  | nil => exact Or.inl ⟨rfl, rfl⟩
  | tab h => exact absurd hs.head (by decide)
  | more h => exact absurd hs.head (by decide)
  | cons c h => exact Or.inr ⟨c, _, _, rfl, rfl, h⟩

/-! ## Tags and keywords -/

/-- Both texts have the token, with the same value, or none of them has it. -/
def Agree {α : Type} (s t : Option (α × List Char)) : Prop :=
  s = none ∧ t = none ∨ ∃ v r r', s = some (v, r) ∧ t = some (v, r') ∧ Expanded r r'

theorem symbol?_expanded (c : Char) (h : Expanded s t) :
    symbol? c s = none ∧ symbol? c t = none ∨
      ∃ r r', symbol? c s = some r ∧ symbol? c t = some r' ∧ Expanded r r' := by
  rcases h.skip_cases with ⟨hs, ht⟩ | ⟨d, s', t', hs, ht, h'⟩
  · simp [symbol?, hs, ht]
  · by_cases hd : d = c
    · exact Or.inr ⟨s', t', by simp [symbol?, hs, hd], by simp [symbol?, ht, hd], h'⟩
    · exact Or.inl ⟨by simp [symbol?, hs, hd], by simp [symbol?, ht, hd]⟩

theorem tag?_expanded (h : Expanded s t) : Agree (tag? s) (tag? t) := by
  rcases h.skip_cases with ⟨hs, ht⟩ | ⟨c, s', t', hs, ht, h'⟩
  · exact Or.inl ⟨by simp [tag?, hs], by simp [tag?, ht]⟩
  · by_cases hc : isTagStart c = true
    · refine Or.inr ⟨String.ofList ((c :: s'.takeWhile isTagChar).map Char.toLower), s'.dropWhile isTagChar,
        t'.dropWhile isTagChar, ?_, ?_, h'.dropWhile (by decide)⟩
      · simp only [tag?, hs, if_pos hc]
      · simp only [tag?, ht, if_pos hc, h'.takeWhile (p := isTagChar) (by decide)]
    · exact Or.inl ⟨by simp [tag?, hs, hc], by simp [tag?, ht, hc]⟩

theorem label?_expanded (h : Expanded s t) : Agree (label? s) (label? t) := by
  rcases tag?_expanded h with ⟨hs, ht⟩ | ⟨n, u, u', hs, ht, hu⟩
  · exact Or.inl ⟨by simp [label?, hs], by simp [label?, ht]⟩
  · rcases symbol?_expanded ':' hu with ⟨hs', ht'⟩ | ⟨r, r', hs', ht', hr⟩
    · exact Or.inl ⟨by simp [label?, hs, hs'], by simp [label?, ht, ht']⟩
    · exact Or.inr ⟨n, r, r', by simp [label?, hs, hs'], by simp [label?, ht, ht'], hr⟩

/-- A word in capitals is spelled by both texts or by none. -/
theorem Expanded.word {w : List Char} (hw : ∀ c ∈ w, c.isUpper = true) (h : Expanded s t) :
    (s.take w.length).map capital = w ∧ (t.take w.length).map capital = w ∧
        Expanded (s.drop w.length) (t.drop w.length) ∨
      (s.take w.length).map capital ≠ w ∧ (t.take w.length).map capital ≠ w := by
  -- neither the tab nor the spaces for it can be a letter of the word
  have hblank : ∀ {c d : Char} {u v : List Char}, d.isUpper = true → capital c = ' ' ∨ capital c = '\t' →
      ((c :: u).take (d :: v).length).map capital ≠ d :: v := by
    intro c d u v hd hc heq
    have hcd : capital c = d := (List.cons.inj heq).1
    rcases hc with hc | hc <;> rw [← hcd, hc] at hd <;> exact absurd hd (by decide)
  induction w generalizing s t with
  | nil => exact Or.inl ⟨rfl, rfl, h⟩
  | cons d w ih =>
      have hd := hw d (by simp)
      cases h with
      | nil => exact Or.inr ⟨nofun, nofun⟩
      | tab h => exact Or.inr ⟨hblank hd (Or.inr rfl), hblank hd (Or.inl rfl)⟩
      | more h => exact Or.inr ⟨hblank hd (Or.inr rfl), hblank hd (Or.inl rfl)⟩
      | cons c h =>
          simp only [List.length_cons, List.take_succ_cons, List.map_cons, List.drop_succ_cons, ne_eq,
            List.cons.injEq]
          rcases ih (fun c hc => hw c (by simp [hc])) h with ⟨hs, ht, hr⟩ | ⟨hs, ht⟩
          · by_cases hc : capital c = d
            · exact Or.inl ⟨⟨hc, hs⟩, ⟨hc, ht⟩, hr⟩
            · exact Or.inr ⟨fun h => hc h.1, fun h => hc h.1⟩
          · exact Or.inr ⟨fun h => hs h.2, fun h => ht h.2⟩

theorem Expanded.head?_any (h : Expanded s t) :
    s.head?.any continuesKeyword = t.head?.any continuesKeyword := by
  cases h with
  | nil => rfl
  | tab h => exact (show continuesKeyword '\t' = continuesKeyword ' ' by decide)
  | more h => exact (show continuesKeyword '\t' = continuesKeyword ' ' by decide)
  | cons c h => rfl

theorem keyword?_expanded (op : Opcode) (h : Expanded s t) :
    keyword? op s = none ∧ keyword? op t = none ∨
      ∃ r r', keyword? op s = some r ∧ keyword? op t = some r' ∧ Expanded r r' := by
  rcases h.skip.word (mnemonic_isUpper op) with ⟨hs, ht, hr⟩ | ⟨hs, ht⟩
  · have hk := hr.head?_any
    by_cases hc : ((Source.skip s).drop op.mnemonic.toList.length).head?.any continuesKeyword = true
    · exact Or.inl ⟨if_neg fun h => h.2 hc, if_neg fun h => h.2 (hk ▸ hc)⟩
    · exact Or.inr ⟨_, _, if_pos ⟨hs, hc⟩, if_pos ⟨ht, hk ▸ hc⟩, hr⟩
  · exact Or.inl ⟨if_neg fun h => hs h.1, if_neg fun h => ht h.1⟩

theorem opcode?_expanded (h : Expanded s t) : Agree (opcode? s) (opcode? t) := by
  unfold opcode?
  induction Opcode.all with
  | nil => exact Or.inl ⟨rfl, rfl⟩
  | cons op ops ih =>
      rcases keyword?_expanded op h with ⟨hs, ht⟩ | ⟨r, r', hs, ht, hr⟩
      · simpa only [List.findSome?_cons, hs, ht, Option.map_none] using ih
      · exact Or.inr ⟨op, r, r', by simp [hs], by simp [ht], hr⟩

/-! ## Operands -/

/-- Both readings end in the same way. -/
inductive Reading.Agree {α : Type} : Reading α → Reading α → Prop
  | absent : Agree .absent .absent
  | token (v : α) {r r' : List Char} : Expanded r r' → Agree (.token v r) (.token v r')
  | tooLong (e : DigitLimitError) : Agree (.tooLong e) (.tooLong e)

theorem Reading.Agree.map {α β : Type} (f : α → β) {a b : Reading α} (h : a.Agree b) :
    (a.map f).Agree (b.map f) := by
  cases h with
  | absent => exact .absent
  | token v h => exact .token (f v) h
  | tooLong e => exact .tooLong e

theorem row_expanded (hp : p '\t' = false ∧ p ' ' = false) (h : Expanded s t) :
    (row p s).Agree (row p t) := by
  unfold row
  rw [h.takeWhile hp]
  split
  · exact .absent
  · split
    · exact .token _ (h.dropWhile (by rw [hp.1, hp.2]))
    · exact .tooLong _

theorem integer_expanded (h : Expanded s t) : (integer s).Agree (integer t) := by
  have hsign : (Numeral.sign (skip s)).1 = (Numeral.sign (skip t)).1 ∧
      Expanded (Numeral.sign (skip s)).2 (Numeral.sign (skip t)).2 := by
    rcases h.skip_cases with ⟨hs, ht⟩ | ⟨c, s', t', hs, ht, h'⟩
    · rw [hs, ht]
      exact ⟨rfl, .nil⟩
    · rw [hs, ht]
      by_cases h₁ : c = '+'
      · subst h₁
        exact ⟨rfl, h'⟩
      · by_cases h₂ : c = '-'
        · subst h₂
          exact ⟨rfl, h'⟩
        · simp only [Numeral.sign, h₁, h₂, List.cons.injEq, false_and, imp_self, true_and, forall_const]
          exact .cons c h'
  simp only [integer, hsign.1]
  exact (row_expanded (by decide) hsign.2).map _

theorem register_expanded (h : Expanded s t) : (register s).Agree (register t) :=
  (row_expanded (by decide) h.skip).map _

theorem operand_expanded (h : Expanded s t) : (operand s).Agree (operand t) := by
  unfold operand
  rcases h.skip_cases with ⟨hs, ht⟩ | ⟨c, s', t', hs, ht, h'⟩
  · rw [hs, ht]
    exact .absent
  · rw [hs, ht]
    dsimp only
    split
    · exact (integer_expanded h').map _
    · split
      · exact (register_expanded h').map _
      · split
        · exact (register_expanded (.cons c h')).map _
        · rcases tag?_expanded (.cons c h') with ⟨hs, ht⟩ | ⟨n, r, r', hs, ht, hr⟩
          · rw [hs, ht]
            exact .absent
          · rw [hs, ht]
            exact .token _ hr

/-! ## Statements -/

theorem command_expanded (h : Expanded s t) : (command s).Agree (command t) := by
  unfold command
  rcases opcode?_expanded h with ⟨hs, ht⟩ | ⟨op, r, r', hs, ht, hr⟩
  · rw [hs, ht]
    exact .absent
  · rw [hs, ht]
    dsimp only
    have ho := operand_expanded hr
    generalize operand r = o, operand r' = o' at ho
    cases ho with
    | absent =>
        dsimp only
        split
        · exact .token _ hr
        · exact .absent
    | token v h => exact .token _ h
    | tooLong e => exact .tooLong e

theorem statement_expanded (h : Expanded s t) :
    (∃ e, statement s = .error e ∧ statement t = .error e) ∨
      ∃ st r r', statement s = .ok (st, r) ∧ statement t = .ok (st, r') ∧ Expanded r r' := by
  unfold statement
  rcases label?_expanded h with ⟨hs, ht⟩ | ⟨l, r, r', hs, ht, hr⟩
  · rw [hs, ht]
    have hc := command_expanded h
    generalize command s = c, command t = c' at hc
    cases hc with
    | absent => exact Or.inr ⟨_, s, t, rfl, rfl, h⟩
    | token i h => exact Or.inr ⟨_, _, _, rfl, rfl, h⟩
    | tooLong e => exact Or.inl ⟨e, rfl, rfl⟩
  · rw [hs, ht]
    have hc := command_expanded hr
    dsimp only
    generalize command r = c, command r' = c' at hc
    cases hc with
    | absent => exact Or.inr ⟨_, r, r', rfl, rfl, hr⟩
    | token i h => exact Or.inr ⟨_, _, _, rfl, rfl, h⟩
    | tooLong e => exact Or.inl ⟨e, rfl, rfl⟩

theorem dropComment_expanded (h : Expanded s t) : Expanded (dropComment s) (dropComment t) := by
  unfold dropComment
  rcases h.skip_cases with ⟨hs, ht⟩ | ⟨c, s', t', hs, ht, h'⟩
  · rw [hs, ht]
    exact .nil
  · rw [hs, ht]
    dsimp only
    split
    · exact h'.dropWhile (by decide)
    · exact .cons c h'

theorem Expanded.skip_eq_nil_iff (h : Expanded s t) : Source.skip s = [] ↔ Source.skip t = [] := by
  rcases h.skip_cases with ⟨hs, ht⟩ | ⟨c, s', t', hs, ht, -⟩
  · simp [hs, ht]
  · simp [hs, ht]

end RandomAccess.Source

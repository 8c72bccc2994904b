import RandomAccess.Proofs.Source.Parsing

/-!
# Derivations of whole lines

What follows the statement of a line is a gap or a comment, which no token can go on with. This is why
the first choices of the readers are the ones that the grammar allows, and why a line has at most one
derivation.
-/

namespace RandomAccess.Source

open Text (Ends)
open Grammar (Gap Tag Keyword Label Command Comment Tail Line Overlong isWordChar)

variable {p : Char → Bool} {s r : List Char}

/-! ## The end of a line -/

/-- Nothing but a comment follows. -/
def Rests (r : List Char) : Prop := Ends (fun c => c ≠ '#' && c ≠ ';') (skip r)

theorem Rests.skip (hr : Rests r) (h : p '#' = false ∧ p ';' = false) : Ends p (skip r) := by
  refine Ends.mono hr fun c hc => ?_
  have h₁ : c ≠ '#' := by rintro rfl; simp [h.1] at hc
  have h₂ : c ≠ ';' := by rintro rfl; simp [h.2] at hc
  simp [h₁, h₂]

theorem Rests.ends (hr : Rests r) (h : p '#' = false ∧ p ';' = false)
    (hg : p ' ' = false ∧ p '\t' = false ∧ p '\n' = false ∧ p '\r' = false) : Ends p r := by
  intro c u hc
  subst hc
  cases hgap : isGap c with
  | true =>
      rcases isGap_iff.mp hgap with rfl | rfl | rfl | rfl
      exacts [hg.1, hg.2.1, hg.2.2.1, hg.2.2.2]
  | false =>
      have hs := hr.skip h
      rw [Source.skip, List.dropWhile_cons_of_neg (by simp [hgap])] at hs
      exact hs.head

theorem Rests.closes (hr : Rests r) (o : Grammar.Operand) : o.Closed r := by
  cases o with
  | constant g₁ g₂ sign d => exact hr.ends (by decide) (by decide)
  | indirect g₁ g₂ d => exact hr.ends (by decide) (by decide)
  | direct g d => exact hr.ends (by decide) (by decide)
  | tag g n => exact hr.ends (by decide) (by decide)

theorem Rests.operand (hr : Rests r) : operand r = .absent := operand_eq_absent (hr.skip (by decide))

theorem Rests.command (hr : Rests r) : command r = .absent := by
  have h : opcode? r = none := by
    refine opcode?_eq_none_of_ends (p := fun c => (capital c).isUpper) (hr.skip (by decide)) fun c hc => hc
  simp only [Source.command, h]

theorem Rests.label? (hr : Rests r) : label? r = none := by
  cases h : Source.label? r with
  | none => rfl
  | some e =>
      obtain ⟨l, rfl, -⟩ := label?_eq_some_iff.mp (show Source.label? r = some (e.1, e.2) from h)
      have hs : Ends isTagStart (Source.skip (l.text ++ e.2)) := hr.skip (by decide)
      rw [Label.text, List.append_assoc, List.append_assoc, skip_gap l.gap₁ (ends_isGap_tag l.name)] at hs
      have hfirst := hs.head
      rw [l.name.isTagStart] at hfirst
      cases hfirst

/-! ## Comments -/

theorem isGap_mark (c : Comment) : isGap c.mark = false := by
  rcases c.isMark with h | h <;> rw [h] <;> decide

theorem skip_of_gap (g : Gap) : skip g.text = [] := by
  have h := skip_gap (s := []) g .nil
  rwa [List.append_nil] at h

theorem skip_comment (c : Comment) : skip (c.text ++ s) = c.mark :: (c.body ++ s) := by
  rw [Comment.text, List.append_assoc, List.cons_append]
  exact skip_gap c.gap (.cons (isGap_mark c))

theorem tail_rests (t : Tail) : Rests t.text := by
  obtain ⟨comment, g, hg⟩ := t
  cases comment with
  | none =>
      rw [Rests, show skip (Tail.text ⟨none, g, hg⟩) = [] from skip_of_gap g]
      exact .nil
  | some c =>
      rw [Rests, show skip (Tail.text ⟨some c, g, hg⟩) = c.mark :: (c.body ++ g.text) from skip_comment c]
      refine .cons ?_
      rcases c.isMark with h | h <;> rw [h] <;> decide

/-- Nothing is left over exactly of what the grammar allows after a statement. -/
theorem skip_dropComment_eq_nil_iff : skip (dropComment r) = [] ↔ ∃ t : Tail, r = t.text := by
  constructor
  · intro h
    obtain ⟨g, hg⟩ := exists_gap r
    cases hr : skip r with
    | nil => exact ⟨⟨none, g, absurd rfl⟩, by rw [hg, hr]; simp [Tail.text]⟩
    | cons c u =>
        by_cases hc : c = '#' ∨ c = ';'
        · have hd : dropComment r = u.dropWhile (· ≠ '\n') := by simp only [dropComment, hr, if_pos hc]
          obtain ⟨g₂, hg₂⟩ := exists_gap (dropComment r)
          rw [h, List.append_nil, hd] at hg₂
          let comment : Comment := ⟨g, c, u.takeWhile (· ≠ '\n'), hc, fun x hx => by
            simpa using Text.mem_takeWhile hx⟩
          refine ⟨⟨some comment, g₂, fun _ => hg₂ ▸ Text.ends_dropWhile _ u⟩, ?_⟩
          rw [hg, hr]
          simp [Tail.text, Comment.text, comment, ← hg₂]
        · have hd : dropComment r = c :: u := by simp only [dropComment, hr, if_neg hc]
          have hgap : Ends isGap (c :: u) := hr ▸ Text.ends_dropWhile isGap r
          rw [hd, skip, hgap.dropWhile] at h
          cases h
  · rintro ⟨⟨comment, g, hg⟩, rfl⟩
    cases comment with
    | none =>
        have hs : skip (Tail.text ⟨none, g, hg⟩) = [] := skip_of_gap g
        simp only [dropComment, hs]
        rfl
    | some c =>
        have hs : skip (Tail.text ⟨some c, g, hg⟩) = c.mark :: (c.body ++ g.text) := skip_comment c
        have hbody : ∀ x ∈ c.body, decide (x ≠ '\n') = true := fun x hx => by simpa using c.inLine x hx
        simp only [dropComment, hs, if_pos c.isMark]
        rw [Text.dropWhile_run hbody (hg (by simp))]
        exact skip_of_gap g

theorem tail_unique {t t' : Tail} (h : t.text = t'.text) : t = t' := by
  obtain ⟨comment, g, hg⟩ := t
  obtain ⟨comment', g', hg'⟩ := t'
  have hs := congrArg skip h
  cases comment with
  | none =>
      cases comment' with
      | none => exact Tail.ext rfl (Gap.ext h)
      | some c' =>
          rw [show skip (Tail.text ⟨none, g, hg⟩) = [] from skip_of_gap g,
            show skip (Tail.text ⟨some c', g', hg'⟩) = _ from skip_comment c'] at hs
          cases hs
  | some c =>
      cases comment' with
      | none =>
          rw [show skip (Tail.text ⟨some c, g, hg⟩) = _ from skip_comment c,
            show skip (Tail.text ⟨none, g', hg'⟩) = [] from skip_of_gap g'] at hs
          cases hs
      | some c' =>
          simp only [Tail.text, Option.map_some, Option.getD_some, Comment.text, List.append_assoc,
            List.cons_append] at h
          obtain ⟨hgap, h₁⟩ := gap_unique (.cons (isGap_mark c)) (.cons (isGap_mark c')) h
          obtain ⟨hmark, h₂⟩ := List.cons.inj h₁
          obtain ⟨hbody, h₃⟩ := Text.run_unique (p := (· ≠ '\n')) (fun x hx => by simpa using c.inLine x hx)
            (hg nofun) (fun x hx => by simpa using c'.inLine x hx) (hg' nofun) h₂
          exact Tail.ext (congrArg some (Comment.ext hgap hmark hbody)) (Gap.ext h₃)

/-! ## Lines -/

theorem continuesKeyword_iff {c : Char} :
    continuesKeyword c = true ↔ isWordChar c = true ∨ c = '\u0131' ∨ c = '\u017F' := by
  by_cases hc : c.toNat < 128
  · exact Text.forall_ascii
      (P := fun c => continuesKeyword c = true ↔ isWordChar c = true ∨ c = '\u0131' ∨ c = '\u017F')
      (by decide +kernel) hc
  · by_cases h₁ : c = '\u0131'
    · subst h₁
      decide
    · by_cases h₂ : c = '\u017F'
      · subst h₂
        decide
      · simp only [continuesKeyword, isWordChar, capital, h₁, h₂, ↓reduceIte, Text.toUpper_of_not_ascii hc,
          or_false]

theorem continuesKeyword_of_isTagChar {c : Char} (h : isTagChar c = true) : continuesKeyword c = true := by
  refine continuesKeyword_iff.mpr (Or.inl ?_)
  simp only [isTagChar, isWordChar, Bool.or_eq_true] at h ⊢
  exact Or.inl h

/-- What follows a keyword does not continue it, unless it is a character of a word. -/
theorem ends_continuesKeyword {a : List Char} (h : Ends isWordChar a)
    (hskip : Ends (fun c => c = '\u0131' || c = '\u017F') (skip a)) : Ends continuesKeyword a := by
  intro c u hc
  cases hk : continuesKeyword c with
  | false => rfl
  | true =>
      rcases continuesKeyword_iff.mp hk with hw | hw
      · rw [h c u hc] at hw
        cases hw
      · have hg : isGap c = false := by rcases hw with rfl | rfl <;> decide
        rw [hc, skip, List.dropWhile_cons_of_neg (by simp [hg])] at hskip
        rcases hw with rfl | rfl <;> exact absurd hskip.head (by decide)

/-- The operand goes no further; where there is none, nothing but a comment follows. -/
def Settled (r : List Char) (c : Command) : Prop :=
  match c.operand with
  | some o => o.Closed r
  | none => Rests r

theorem Rests.settled (hr : Rests r) (c : Command) : Settled r c := by
  unfold Settled
  cases c.operand with
  | none => exact hr
  | some o => exact hr.closes o

/-- The gap after a keyword is followed by an operand or by the end of the line. -/
theorem ends_skip_argument {c : Command} (hr : Settled r c) (ho : ∀ x, startsOperand x = true → p x = false)
    (h : p '#' = false ∧ p ';' = false) : Ends p (skip (c.argument ++ r)) := by
  unfold Settled at hr
  unfold Command.argument
  cases hop : c.operand with
  | none =>
      rw [hop] at hr
      exact hr.skip h
  | some o =>
      obtain ⟨g, x, u, hx, hs, -⟩ := operand_starts o
      rw [Option.map_some, Option.getD_some, hx, List.append_assoc]
      rw [show skip (g.text ++ (x :: u ++ r)) = x :: (u ++ r) from
        skip_gap g (.cons (startsOperand_not_isGap hs))]
      exact .cons (ho x hs)

theorem stops_of_settled {c : Command} (hr : Settled r c) (hb : Ends isWordChar (c.argument ++ r)) :
    Stops r c := by
  refine ⟨ends_continuesKeyword hb (ends_skip_argument hr ?_ (by decide)), ?_⟩
  · intro x hx
    cases hn : (x = '\u0131' || x = '\u017F' : Bool) with
    | false => rfl
    | true =>
        have hx' : x = '\u0131' ∨ x = '\u017F' := by simpa using hn
        rcases hx' with rfl | rfl <;> exact absurd hx (by decide)
  · unfold Settled at hr
    cases hop : c.operand with
    | none =>
        rw [hop] at hr
        exact hr.operand
    | some o =>
        rw [hop] at hr
        exact hr

/-- A keyword is not taken for a label: no colon follows it. -/
theorem label?_command {c : Command} (hr : Settled r c) (hc : Stops r c) : label? (c.text ++ r) = none := by
  have hcolon : ∀ (g : Gap) (u : List Char), c.argument ++ r ≠ g.text ++ ':' :: u := by
    intro g u h
    have hs : Ends (· = ':') (skip (c.argument ++ r)) := by
      refine ends_skip_argument hr (fun x hx => ?_) (by decide)
      have hne : x ≠ ':' := by rintro rfl; exact absurd hx (by decide)
      simpa using hne
    rw [h, skip_gap g (.cons (by decide))] at hs
    exact absurd hs.head (by decide)
  cases h : label? (c.text ++ r) with
  | none => rfl
  | some e =>
      obtain ⟨l, hl, -⟩ := label?_eq_some_iff.mp (show label? (c.text ++ r) = some (e.1, e.2) from h)
      simp only [Command.text, Label.text, List.append_assoc, List.cons_append, List.nil_append] at hl
      obtain ⟨-, hl⟩ := gap_unique (ends_isGap_keyword c.keyword) (ends_isGap_tag l.name) hl
      -- the tag ends within the keyword, at its end or after it
      rcases List.append_eq_append_iff.mp hl with ⟨u, hu, hrest⟩ | ⟨u, hu, hrest⟩
      · cases u with
        | nil => exact absurd hrest (hcolon l.gap₂ e.2)
        | cons x u =>
            have hx : isTagChar x = true := tag_chars l.name x (by simp [hu])
            have hend := hc.1
            rw [hrest] at hend
            have hw := continuesKeyword_of_isTagChar hx
            rw [hend.head] at hw
            cases hw
      · cases u with
        | nil => exact absurd hrest.symm (hcolon l.gap₂ e.2)
        | cons x u =>
            have hx := keyword_chars c.keyword x (by simp [hu])
            have hend : Ends (fun x => (capital x).isUpper) (l.gap₂.text ++ ':' :: e.2) :=
              ends_colon l.gap₂ (by decide) (by decide)
            rw [hrest] at hend
            rw [hend.head] at hx
            cases hx

theorem chosen_instruction (l : Option Label) {c : Command} (hr : Settled r c)
    (hb : Ends isWordChar (c.argument ++ r)) : Chosen r (.instruction l c) := by
  have hc := stops_of_settled hr hb
  exact ⟨fun _ => label?_command hr hc, hc⟩

theorem Chosen.bounded {t : Grammar.Statement} (h : Chosen r t) : t.Bounded r := by
  cases t with
  | nothing => trivial
  | label l => trivial
  | instruction l c =>
      have hc : Stops r c := h.2
      exact hc.1.mono fun x hx => continuesKeyword_iff.mpr (Or.inl hx)

theorem Rests.chosen (hr : Rests r) {t : Grammar.Statement} (hb : t.Bounded r) : Chosen r t := by
  cases t with
  | nothing => exact ⟨fun _ => hr.label?, hr.command⟩
  | label l => exact ⟨nofun, hr.command⟩
  | instruction l c => exact chosen_instruction l (hr.settled c) hb

theorem chosen_line (l : Line) : Chosen l.tail.text l.statement :=
  (tail_rests l.tail).chosen l.bounded

theorem line_unique {l l' : Line} (h : l.text = l'.text) : l = l' := by
  obtain ⟨hs, ht⟩ := statement_unique (chosen_line l) (chosen_line l') h
  exact Line.ext hs (tail_unique ht)

theorem statement_line (l : Line) :
    statement l.text =
      if l.Readable then .ok (l.value, l.tail.text) else .error (.reading l.statement.length) :=
  statement_text l.statement (chosen_line l)

/-- A line is used up exactly when it has a derivation. -/
theorem exists_line_iff {st : Statement} :
    (∃ r, statement s = .ok (st, r) ∧ skip (dropComment r) = []) ↔
      ∃ l : Line, l.text = s ∧ l.Readable ∧ l.value = st := by
  constructor
  · rintro ⟨r, hs, hr⟩
    obtain ⟨t, r', rfl, ht⟩ := exists_chosen s
    rw [statement_text t ht] at hs
    split at hs
    · rename_i hl
      cases hs
      obtain ⟨tail, rfl⟩ := skip_dropComment_eq_nil_iff.mp hr
      exact ⟨⟨t, tail, ht.bounded⟩, rfl, hl, rfl⟩
    · cases hs
  · rintro ⟨l, rfl, hl, rfl⟩
    exact ⟨l.tail.text, by rw [statement_line, if_pos hl], skip_dropComment_eq_nil_iff.mpr ⟨l.tail, rfl⟩⟩

/-! ## Numbers that are too long -/

theorem statement_eq_error_iff {e : DigitLimitError} :
    statement s = .error e ↔ ∃ n, e = .reading n ∧ Overlong s n := by
  constructor
  · intro h
    obtain ⟨t, r, rfl, ht⟩ := exists_chosen s
    rw [statement_text t ht] at h
    split at h
    · cases h
    · rename_i hlen
      cases h
      refine ⟨t.length, rfl, ?_⟩
      cases t with
      | nothing => exact absurd (Nat.zero_le _) hlen
      | label l => exact absurd (Nat.zero_le _) hlen
      | instruction l c =>
          have hclose : Stops r c := ht.2
          obtain ⟨g, k, o, hc⟩ := c
          cases o with
          | none => exact absurd (Nat.zero_le _) hlen
          | some o => exact ⟨l, _, o, r, rfl, ht.bounded, rfl, hclose.2, rfl, Nat.lt_of_not_le hlen⟩
  · rintro ⟨_, rfl, l, ⟨g, k, o', hc⟩, o, r, rfl, hb, rfl, hclose, rfl, hlen⟩
    have hr : Settled r ⟨g, k, some o, hc⟩ := hclose
    rw [statement_text _ (chosen_instruction l hr hb)]
    exact if_neg (Nat.not_le_of_lt hlen)

end RandomAccess.Source

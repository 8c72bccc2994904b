import RandomAccess.Proofs.Source.Case

/-!
# The layout of a line

No statement has the mark of a comment in it, and none ends in a gap. So a comment can be put after a line or
taken away, and a label can be cut from the instruction that it marks.
-/

namespace RandomAccess.Source

open Text (Ends)
open Grammar (Gap Tag Digits Keyword Label Command Comment Tail Line isWordChar)

variable {p : Char → Bool} {c mark blank : Char} {s r t body : List Char} {st : Statement}

/-! ## The characters of a statement -/

def isMark (c : Char) : Bool := c = '#' || c = ';'

theorem isMark_iff : isMark c = true ↔ c = '#' ∨ c = ';' := by simp [isMark]

/-- A class that leaves out the two marks has no mark in it. -/
theorem not_isMark (hc : p c = true) (hp : p '#' = false ∧ p ';' = false) : isMark c = false := by
  cases hm : isMark c with
  | false => rfl
  | true =>
      rcases isMark_iff.mp hm with rfl | rfl
      · rw [hp.1] at hc; cases hc
      · rw [hp.2] at hc; cases hc

/-- Some text with no mark in it and no gap at its end. -/
structure Solid (s : List Char) : Prop where
  ne_nil : s ≠ []
  marks : ∀ c ∈ s, isMark c = false
  ends : Ends isGap s.reverse

theorem Solid.append (hs : ∀ c ∈ s, isMark c = false) (ht : Solid t) : Solid (s ++ t) where
  ne_nil := by simp [ht.ne_nil]
  marks c hc := (List.mem_append.mp hc).elim (hs c) (ht.marks c)
  ends := by
    rw [List.reverse_append]
    exact Text.ends_append ht.ends (by simpa using ht.ne_nil)

theorem Solid.cons (hc : isMark c = false) (ht : Solid t) : Solid (c :: t) :=
  ht.append (s := [c]) (by simpa using hc)

/-- A run of characters that are neither marks nor gaps. -/
theorem solid_run (hs : ∀ c ∈ s, p c = true) (hne : s ≠ []) (hm : p '#' = false ∧ p ';' = false)
    (hg : p ' ' = false ∧ p '\t' = false ∧ p '\n' = false ∧ p '\r' = false) : Solid s where
  ne_nil := hne
  marks c hc := not_isMark (hs c hc) hm
  ends := by
    intro c r h
    exact not_isGap (hs c (List.mem_reverse.mp (by simp [h]))) hg

theorem gap_marks (g : Gap) : ∀ c ∈ g.text, isMark c = false :=
  fun c hc => not_isMark (g.isGap c hc) (by decide)

theorem solid_tag (n : Tag) : Solid n.text := solid_run (tag_chars n) nofun (by decide) (by decide)

theorem solid_keyword (k : Keyword) : Solid k.text := by
  refine solid_run (p := fun c => (capital c).isUpper) (keyword_chars k) (keyword_ne_nil k) ?_ ?_ <;> decide

theorem solid_operand (o : Grammar.Operand) : Solid o.text := by
  cases o with
  | constant g₁ g₂ sign d =>
      have hd : Solid d.text := solid_run d.isDigit d.ne_nil (by decide) (by decide)
      have hsign : ∀ c ∈ sign.text, isMark c = false := by
        cases sign <;> simp [Grammar.Sign.text, isMark]
      exact .append (gap_marks g₁) (.cons (by decide) (.append (gap_marks g₂) (.append hsign hd)))
  | indirect g₁ g₂ d =>
      have hd : Solid d.text := solid_run d.isDigit d.ne_nil (by decide) (by decide)
      exact .append (gap_marks g₁) (.cons (by decide) (.append (gap_marks g₂) hd))
  | direct g d => exact .append (gap_marks g) (solid_run d.isDigit d.ne_nil (by decide) (by decide))
  | tag g n => exact .append (gap_marks g) (solid_tag n)

theorem solid_command (c : Command) : Solid c.text := by
  refine .append (gap_marks c.gap) ?_
  unfold Command.argument
  cases c.operand with
  | none => simpa using solid_keyword c.keyword
  | some o => exact .append (solid_keyword c.keyword).marks (solid_operand o)

theorem solid_label (l : Label) : Solid l.text := by
  have hcolon : Solid [':'] := ⟨nofun, by simp [isMark], .cons (by decide)⟩
  exact .append (gap_marks l.gap₁) (.append (solid_tag l.name).marks (.append (gap_marks l.gap₂) hcolon))

theorem solid_statement (t : Grammar.Statement) : t.text = [] ∨ Solid t.text := by
  cases t with
  | nothing => exact Or.inl rfl
  | label l => exact Or.inr (solid_label l)
  | instruction l c =>
      right
      cases l with
      | none => exact solid_command c
      | some l => exact .append (solid_label l).marks (solid_command c)

theorem statement_marks (t : Grammar.Statement) : ∀ c ∈ t.text, isMark c = false := by
  rcases solid_statement t with h | h
  · simp [h]
  · exact h.marks

theorem statement_ends (t : Grammar.Statement) : Ends isGap t.text.reverse := by
  rcases solid_statement t with h | h
  · rw [h]
    exact .nil
  · exact h.ends

/-! ## Comments -/

theorem bounded_extend {t : Grammar.Statement} (h : t.Bounded r) (hc : isGap c = true) :
    t.Bounded (r ++ c :: body) := by
  cases t with
  | nothing => trivial
  | label l => trivial
  | instruction l k =>
      have hw : isWordChar c = false := by rcases isGap_iff.mp hc with rfl | rfl | rfl | rfl <;> decide
      have hb : Ends isWordChar (k.argument ++ r) := h
      rw [Grammar.Statement.Bounded, ← List.append_assoc]
      exact hb.extend hw

theorem bounded_of_append {t : Grammar.Statement} (h : t.Bounded (r ++ body)) : t.Bounded r := by
  cases t with
  | nothing => trivial
  | label l => trivial
  | instruction l k =>
      rw [Grammar.Statement.Bounded, ← List.append_assoc] at h
      exact h.of_append

/-- What follows a comment in a text without a line feed is nothing. -/
theorem tail_gap_nil (x : Tail) (hc : x.comment ≠ none) (hn : '\n' ∉ x.text) : x.gap.text = [] := by
  cases hg : x.gap.text with
  | nil => rfl
  | cons d u =>
      have hfeed := x.ends hc
      rw [hg] at hfeed
      have hd : d = '\n' := by simpa using hfeed.head
      exact absurd (by simp [Tail.text, hg, hd]) hn

/-- The end of a line without a comment. -/
def gapTail (g : Gap) : Tail := ⟨none, g, absurd rfl⟩

/-- A comment up to the end of the text. -/
def lastComment (g : Gap) (hm : isMark mark = true) (hn : '\n' ∉ body) : Tail where
  comment := some ⟨g, mark, body, isMark_iff.mp hm, fun _ hc h => hn (h ▸ hc)⟩
  gap := noGap
  ends _ := .nil

theorem lastComment_text (g : Gap) (hm : isMark mark = true) (hn : '\n' ∉ body) :
    (lastComment g hm hn).text = g.text ++ mark :: body := by
  simp [lastComment, Tail.text, Comment.text, noGap]

theorem tail_commented (x : Tail) (hblank : isGap blank = true) (hm : isMark mark = true)
    (hn : '\n' ∉ x.text ++ blank :: mark :: body) : ∃ y : Tail, y.text = x.text ++ blank :: mark :: body := by
  cases hx : x.comment with
  | none =>
      let g : Gap := ⟨x.gap.text ++ [blank], fun c hc => by
        rcases List.mem_append.mp hc with hc | hc
        · exact x.gap.isGap c hc
        · rwa [List.mem_singleton.mp hc]⟩
      have hbody : '\n' ∉ body := fun h => hn (by simp [h])
      refine ⟨lastComment g hm hbody, ?_⟩
      rw [lastComment_text]
      simp [Tail.text, hx, g]
  | some k =>
      have hgap := tail_gap_nil x (by simp [hx]) fun h => hn (by simp [h])
      have htext : x.text = k.gap.text ++ k.mark :: k.body := by simp [Tail.text, Comment.text, hx, hgap]
      rw [htext] at hn ⊢
      have hbody : '\n' ∉ k.body ++ blank :: mark :: body := fun h => hn (by
        rw [List.append_assoc, List.cons_append]
        simp only [List.mem_append, List.mem_cons] at h ⊢
        tauto)
      refine ⟨lastComment k.gap (isMark_iff.mpr k.isMark) hbody, ?_⟩
      rw [lastComment_text, List.append_assoc, List.cons_append]

theorem line_commented (l : Line) (hblank : isGap blank = true) (hm : isMark mark = true)
    (hn : '\n' ∉ l.text ++ blank :: mark :: body) :
    ∃ l' : Line, l'.text = l.text ++ blank :: mark :: body ∧ l'.statement = l.statement := by
  have hntail : '\n' ∉ l.tail.text ++ blank :: mark :: body := fun h => hn (by
    rw [Line.text, List.append_assoc]
    exact List.mem_append_right _ h)
  obtain ⟨y, hy⟩ := tail_commented l.tail hblank hm hntail
  refine ⟨⟨l.statement, y, ?_⟩, ?_, rfl⟩
  · rw [hy]
    exact bounded_extend l.bounded hblank
  · simp only [Line.text, hy, List.append_assoc]

/-- Up to the first mark a text is found in another in one way only. -/
theorem marks_unique {u v : List Char} {d : Char} (hs : ∀ c ∈ s, isMark c = false) (hc : isMark c = true)
    (ht : ∀ c ∈ t, isMark c = false) (hd : isMark d = true) (h : s ++ c :: u = t ++ d :: v) :
    s = t ∧ c = d ∧ u = v := by
  obtain ⟨hst, huv⟩ := Text.run_unique (p := fun c => !isMark c) (fun x hx => by simp [hs x hx])
    (.cons (by simp [hc])) (fun x hx => by simp [ht x hx]) (.cons (by simp [hd])) h
  exact ⟨hst, List.cons.inj huv⟩

/-- A text has no mark, or it has a first one. -/
theorem marks_cases (t : List Char) :
    (∀ c ∈ t, isMark c = false) ∨
      ∃ u m v, t = u ++ m :: v ∧ (∀ c ∈ u, isMark c = false) ∧ isMark m = true := by
  have hu : ∀ c ∈ t.takeWhile (fun c => !isMark c), isMark c = false := by
    intro c hc
    simpa using Text.mem_takeWhile hc
  have hrest := Text.ends_dropWhile (fun c => !isMark c) t
  have ht : t = t.takeWhile (fun c => !isMark c) ++ t.dropWhile (fun c => !isMark c) :=
    List.takeWhile_append_dropWhile.symm
  cases hd : t.dropWhile (fun c => !isMark c) with
  | nil =>
      rw [hd, List.append_nil] at ht
      exact Or.inl (ht ▸ hu)
  | cons m v =>
      rw [hd] at ht hrest
      exact Or.inr ⟨_, m, v, ht, hu, by simpa using hrest.head⟩

/-- The gap before a comment is longer than the blank that stands there for sure. -/
theorem exists_gap_before {t : Grammar.Statement} {g : Gap} (h : t.text ++ g.text = s ++ [blank])
    (hblank : isGap blank = true) : ∃ g' : Gap, g.text = g'.text ++ [blank] ∧ t.text ++ g'.text = s := by
  rcases List.eq_nil_or_concat g.text with hg | ⟨u, d, hg⟩
  · have hends := statement_ends t
    rw [hg, List.append_nil] at h
    rw [h, List.reverse_append] at hends
    rw [hends.head] at hblank
    cases hblank
  · rw [hg, List.concat_eq_append, ← List.append_assoc] at h
    obtain ⟨hs, hd⟩ := List.append_inj' h rfl
    exact ⟨⟨u, fun c hc => g.isGap c (by simp [hg, hc])⟩, by simp [hg, hd], hs⟩

/-- A comment that was put after a line is its comment, or the end of the comment that it has. -/
theorem tail_uncommented {st : Grammar.Statement} {k : Comment}
    (h : st.text ++ k.text = t ++ blank :: mark :: body) (hb : st.Bounded k.text)
    (hblank : isGap blank = true) (hm : isMark mark = true) (hn : '\n' ∉ t) :
    ∃ x : Tail, st.text ++ x.text = t ∧ st.Bounded x.text := by
  have hk : isMark k.mark = true := isMark_iff.mpr k.isMark
  have hbefore : ∀ c ∈ st.text ++ k.gap.text, isMark c = false := by
    intro c hc
    exact (List.mem_append.mp hc).elim (statement_marks st c) (gap_marks k.gap c)
  rw [Comment.text] at h hb
  rw [← List.append_assoc] at h
  rcases marks_cases t with hmarks | ⟨u, m, v, rfl, hu, hm'⟩
  · have hmarks' : ∀ c ∈ t ++ [blank], isMark c = false := by
      intro c hc
      refine (List.mem_append.mp hc).elim (hmarks c) fun hc => ?_
      rw [List.mem_singleton.mp hc]
      exact not_isMark hblank (by decide)
    have h' : st.text ++ k.gap.text ++ k.mark :: k.body = t ++ [blank] ++ mark :: body := by simp [h]
    obtain ⟨hend, -, -⟩ := marks_unique hbefore hk hmarks' hm h'
    obtain ⟨g, hg, ht⟩ := exists_gap_before hend hblank
    rw [hg, List.append_assoc] at hb
    exact ⟨gapTail g, ht, bounded_of_append hb⟩
  · have h' : st.text ++ k.gap.text ++ k.mark :: k.body = u ++ m :: (v ++ blank :: mark :: body) := by
      simp [h]
    obtain ⟨rfl, rfl, hbody⟩ := marks_unique hbefore hk hu hm' h'
    have hnv : '\n' ∉ v := fun hmem => hn (by simp [hmem])
    refine ⟨lastComment k.gap hk hnv, ?_, ?_⟩
    · rw [lastComment_text, List.append_assoc]
    · rw [hbody, ← List.cons_append, ← List.append_assoc] at hb
      rw [lastComment_text]
      exact bounded_of_append hb

theorem line_uncommented {l : Line} (h : l.text = t ++ blank :: mark :: body) (hblank : isGap blank = true)
    (hm : isMark mark = true) (hn : '\n' ∉ l.text) :
    ∃ l' : Line, l'.text = t ∧ l'.statement = l.statement := by
  have hnt : '\n' ∉ t := fun hmem => hn (by simp [h, hmem])
  obtain ⟨statement, tail, hb⟩ := l
  cases hx : tail.comment with
  | none =>
      have hmem : mark ∈ Line.text ⟨statement, tail, hb⟩ := by simp [h]
      have hnot : isMark mark = false := by
        simp only [Line.text, Tail.text, hx, Option.map_none, Option.getD_none, List.nil_append] at hmem
        exact (List.mem_append.mp hmem).elim (statement_marks statement mark) (gap_marks tail.gap mark)
      rw [hm] at hnot
      cases hnot
  | some k =>
      have hgap := tail_gap_nil tail (by simp [hx]) fun hmem => hn (List.mem_append_right _ hmem)
      have htail : tail.text = k.text := by simp [Tail.text, hx, hgap]
      rw [Line.text, htail] at h
      obtain ⟨x, ht, hbx⟩ := tail_uncommented h (htail ▸ hb) hblank hm hnt
      exact ⟨⟨statement, x, hbx⟩, ht, rfl⟩

theorem line_commented_iff (hblank : isGap blank = true) (hm : isMark mark = true)
    (hn : '\n' ∉ t ++ blank :: mark :: body) :
    (∃ l : Line, l.text = t ++ blank :: mark :: body ∧ l.Readable ∧ l.value = st) ↔
      ∃ l : Line, l.text = t ∧ l.Readable ∧ l.value = st := by
  constructor
  · rintro ⟨l, hl, hr, hv⟩
    obtain ⟨l', ht, hst⟩ := line_uncommented hl hblank hm (hl ▸ hn)
    exact ⟨l', ht, by rwa [Line.Readable, hst], by rwa [Line.value, hst]⟩
  · rintro ⟨l, rfl, hr, hv⟩
    obtain ⟨l', hl, hst⟩ := line_commented l hblank hm hn
    exact ⟨l', hl, by rwa [Line.Readable, hst], by rwa [Line.value, hst]⟩

/-! ## Labels -/

/-- A line with a label alone. -/
def labelLine (l : Label) : Line := ⟨.label l, gapTail noGap, trivial⟩

theorem labelLine_text (l : Label) : (labelLine l).text = l.text := List.append_nil _

/-- The command at the start of its line. -/
def flush (c : Command) : Command := { c with gap := noGap }

theorem flush_text (c : Command) : c.text = c.gap.text ++ (flush c).text := rfl

theorem isBlank_of_isGap (h : isGap c = true) : Text.isBlank c = true := by
  rcases isGap_iff.mp h with rfl | rfl | rfl | rfl <;> decide

theorem not_isBlank_of_capital (h : (capital c).isUpper = true) : Text.isBlank c = false := by
  cases hb : Text.isBlank c with
  | false => rfl
  | true =>
      have hdotless : c ≠ '\u0131' := by rintro rfl; cases hb
      have hlong : c ≠ '\u017F' := by rintro rfl; cases hb
      rw [capital, if_neg hdotless, if_neg hlong, Char.isUpper_toUpper_eq_isAlpha,
        Text.not_isAlpha_of_isBlank hb] at h
      cases h

/-- A line with a label is cut after its first colon. -/
theorem label_cut {l : Line} {lb : Label} {k : Command} (hl : l.statement = .instruction (some lb) k)
    {a b : List Char} (h : l.text = a ++ ':' :: b) (ha : ':' ∉ a) :
    a ++ [':'] = lb.text ∧ b = k.text ++ l.tail.text := by
  have htext : l.text = lb.gap₁.text ++ lb.name.text ++ lb.gap₂.text ++ ':' :: (k.text ++ l.tail.text) := by
    simp [Line.text, hl, Grammar.Statement.text, Label.text]
  have hfree {p : Char → Bool} {s : List Char} (hs : ∀ c ∈ s, p c = true) (hp : p ':' = false) :
      ∀ c ∈ s, decide (c ≠ ':') = true := by
    intro c hc
    rw [decide_eq_true_eq]
    rintro rfl
    rw [hs _ hc] at hp
    cases hp
  have hbefore : ∀ c ∈ lb.gap₁.text ++ lb.name.text ++ lb.gap₂.text, decide (c ≠ ':') = true := by
    simp only [List.mem_append]
    rintro c ((hc | hc) | hc)
    · exact hfree lb.gap₁.isGap (by decide) c hc
    · exact hfree (tag_chars lb.name) (by decide) c hc
    · exact hfree lb.gap₂.isGap (by decide) c hc
  have ha' : ∀ c ∈ a, decide (c ≠ ':') = true := by
    intro c hc
    rw [decide_eq_true_eq]
    rintro rfl
    exact ha hc
  obtain ⟨haeq, hbeq⟩ := Text.run_unique (p := (· ≠ ':')) ha' (.cons (by decide)) hbefore (.cons (by decide))
    (h.symm.trans htext)
  refine ⟨?_, (List.cons.inj hbeq).2⟩
  rw [haeq]
  simp [Label.text]

end RandomAccess.Source

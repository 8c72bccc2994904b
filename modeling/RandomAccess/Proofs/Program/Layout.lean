import RandomAccess.Proofs.Program.Loading
import RandomAccess.Proofs.Source.Layout

/-!
# The layout of a source

Blank lines, comments, the case of letters and whether a label has a line of its own do not change what is
loaded, and not whether anything is loaded.
-/

namespace RandomAccess.Program

open Grammar (Label Command Line)

variable {s s' : List Char} {st : Source.Statement} {d d' : Draft} {lines lines' : List (List Char)} {k n : Nat}

/-! ## What lines do to a draft -/

theorem Draft.line_eq_ok_iff : d.line n s = .ok d' ↔ ∃ st, Reads s st ∧ d.add n st = .ok d' := by
  constructor
  · intro h
    cases hr : Source.Statement.read (Text.trim s) with
    | ok st =>
        have hs := reads_iff.mpr hr
        exact ⟨st, hs, by rw [← Draft.line_of_reads hs, h]⟩
    | error e =>
        cases e with
        | digitLimit e => rw [Draft.line_of_digitLimit hr] at h; cases h
        | mismatch place => rw [Draft.line_of_mismatch hr] at h; cases h
  · rintro ⟨st, hs, h⟩
    rw [Draft.line_of_reads hs, h]

/-- The number of a line matters to the messages only. -/
theorem Draft.add_number (n n' : Nat) : d.add n st = .ok d' ↔ d.add n' st = .ok d' := by
  obtain ⟨p, w⟩ := d
  cases st with
  | nothing => rfl
  | label l => cases w <;> simp [Draft.add, Draft.label]
  | instruction i =>
      obtain ⟨op, o, l⟩ := i
      cases w <;> cases l <;> simp [Draft.add, Draft.instruction]

/-- A label on a line of its own does what the label before an instruction does. -/
theorem Draft.add_split {i : Instruction} (hi : i.label = none) (l : String) :
    d.add n (.instruction (i.withLabel (some l))) = .ok d' ↔
      ∃ d₁, d.add n (.label l) = .ok d₁ ∧ d₁.add (n + 1) (.instruction i) = .ok d' := by
  obtain ⟨p, w⟩ := d
  obtain ⟨op, o, l'⟩ := i
  cases hi
  cases w <;> simp [Draft.add, Draft.label, Draft.instruction, Instruction.withLabel]

theorem resume_append (k : Nat) (d : Draft) (lines lines' : List (List Char)) :
    resume k d (lines ++ lines') = resume k d lines >>= fun d' => resume (k + lines.length) d' lines' := by
  rw [resume, List.zipIdx_append, List.foldlM_append]
  rfl

theorem resume_nil : resume k d [] = .ok d' ↔ d = d' := by
  show (Except.ok d : Except LoadError Draft) = .ok d' ↔ d = d'
  rw [Except.ok.injEq]

theorem resume_singleton : resume k d [s] = .ok d' ↔ ∃ st, Reads s st ∧ d.add k st = .ok d' := by
  rw [← Draft.line_eq_ok_iff]
  show (d.line k s >>= pure) = .ok d' ↔ d.line k s = .ok d'
  rw [bind_pure]

/-! ## Lines that do the same -/

/-- From every draft both lists of lines lead to the same draft, or both are refused. -/
def Alike (lines lines' : List (List Char)) : Prop :=
  ∀ k k' d d', resume k d lines = .ok d' ↔ resume k' d lines' = .ok d'

theorem Alike.append {more more' : List (List Char)} (h : Alike lines lines') (hmore : Alike more more') :
    Alike (lines ++ more) (lines' ++ more') := by
  intro k k' d d'
  rw [resume_append, resume_append, bind_eq_ok_iff, bind_eq_ok_iff]
  exact exists_congr fun d₁ => and_congr (h k k' d d₁) (hmore _ _ d₁ d')

theorem alike_of_reads (h : ∀ st, Reads s st ↔ Reads s' st) : Alike [s] [s'] := by
  intro k k' d d'
  rw [resume_singleton, resume_singleton]
  exact exists_congr fun st => and_congr (h st) (Draft.add_number k k')

theorem Alike.refl (lines : List (List Char)) : Alike lines lines := by
  induction lines with
  | nil =>
      intro k k' d d'
      rw [resume_nil, resume_nil]
  | cons s lines ih =>
      have hs : Alike [s] [s] := alike_of_reads fun _ => Iff.rfl
      exact hs.append ih

theorem Alike.between (h : Alike lines lines') (before after : List (List Char)) :
    Alike (before ++ (lines ++ after)) (before ++ (lines' ++ after)) :=
  (Alike.refl before).append (h.append (.refl after))

theorem Alike.ofLines_eq (h : Alike lines lines') (p : Program) :
    ofLines lines = .ok p ↔ ofLines lines' = .ok p := by
  rw [ofLines_eq_resume, ofLines_eq_resume, bind_eq_ok_iff, bind_eq_ok_iff]
  exact exists_congr fun d => and_congr_left fun _ => h 1 1 _ d

/-! ## One line -/

/-- What a line with a derivation says. -/
theorem reads_iff_of_line {l : Line} (h : l.text = Text.trim s) : Reads s st ↔ l.Readable ∧ l.value = st := by
  constructor
  · rintro ⟨l', h', hl⟩
    rwa [Source.line_unique (h.trans h'.symm)]
  · intro hl
    exact ⟨l, h, hl⟩

theorem reads_blank_iff (h : Text.trim s = []) : Reads s st ↔ st = .nothing := by
  rw [reads_iff, h, read_nil, Except.ok.injEq, eq_comm]

theorem reads_remark_iff {mark : Char} {body : List Char} (h : Text.trim s = mark :: body)
    (hm : Source.isMark mark = true) (hn : '\n' ∉ body) : Reads s st ↔ st = .nothing := by
  let l : Line := ⟨.nothing, Source.lastComment Source.noGap hm hn, trivial⟩
  have hl : l.text = Text.trim s := by
    rw [h, Line.text, Source.lastComment_text]
    rfl
  rw [reads_iff_of_line hl]
  constructor
  · rintro ⟨-, hv⟩
    exact hv.symm
  · rintro rfl
    exact ⟨Nat.zero_le _, rfl⟩

theorem alike_of_nothing (h : Reads s .nothing) : Alike [] [s] := by
  intro k k' d d'
  have hs : resume k' d [s] = resume k' d [] := by
    show (d.line k' s >>= pure) = pure d
    rw [Draft.line_of_reads h, bind_pure]
    rfl
  rw [hs, resume_nil, resume_nil]

/-- A comment after a line does not change what the line says. -/
theorem reads_commented {blank mark : Char} {body : List Char} (hs : '\n' ∉ Text.trim s)
    (hblank : blank = ' ' ∨ blank = '\t' ∨ blank = '\r') (hm : Source.isMark mark = true) (hn : '\n' ∉ body) :
    Reads s st ↔ Reads (Text.trim s ++ blank :: mark :: body) st := by
  have hgap : Source.isGap blank = true := by rcases hblank with rfl | rfl | rfl <;> decide
  have hmark : Text.isBlank mark = false := by rcases Source.isMark_iff.mp hm with rfl | rfl <;> decide
  have hn' : '\n' ∉ Text.trimEnd Text.isBlank body := mt Text.mem_of_mem_trimEnd hn
  have htrim : Text.trim (Text.trim s ++ blank :: mark :: body) =
      (Text.trim s ++ [blank]).dropWhile Text.isBlank ++ mark :: Text.trimEnd Text.isBlank body := by
    rw [List.append_cons]
    exact Text.trimBy_around hmark _ body
  by_cases ht : Text.trim s = []
  · have hremark : Text.trim (Text.trim s ++ blank :: mark :: body) =
        mark :: Text.trimEnd Text.isBlank body := by
      rw [htrim, ht]
      simp [Source.isBlank_of_isGap hgap]
    rw [reads_blank_iff ht, reads_remark_iff hremark hm hn']
  · have hfeed : '\n' ∉ Text.trim s ++ blank :: mark :: Text.trimEnd Text.isBlank body := by
      have hb : '\n' ≠ blank := by rcases hblank with rfl | rfl | rfl <;> decide
      have hm' : '\n' ≠ mark := by rcases Source.isMark_iff.mp hm with rfl | rfl <;> decide
      simp [hs, hb, hm', hn']
    have hends : Text.Ends Text.isBlank (Text.trim s ++ [blank]) :=
      Text.ends_append (Text.ends_trimBy _ s) ht
    rw [hends.dropWhile, List.append_assoc] at htrim
    unfold Reads
    rw [htrim]
    exact (Source.line_commented_iff hgap hm hfeed).symm

/-- The lines of a label and of an instruction do what the line with both does. -/
theorem alike_split {first second : List Char} {l : String} {i : Instruction} {readable : Prop}
    (hi : i.label = none) (hs : ∀ st, Reads s st ↔ readable ∧ .instruction (i.withLabel (some l)) = st)
    (hfirst : Reads first (.label l)) (hsecond : ∀ st, Reads second st ↔ readable ∧ .instruction i = st) :
    Alike [s] [first, second] := by
  intro k k' d d'
  have hlabel (d₁ : Draft) : resume k' d [first] = .ok d₁ ↔ d.add k' (.label l) = .ok d₁ := by
    rw [← Draft.line_of_reads hfirst]
    show (d.line k' first >>= pure) = .ok d₁ ↔ _
    rw [bind_pure]
  have htwo : [first, second] = [first] ++ [second] := rfl
  rw [htwo, resume_append, bind_eq_ok_iff, resume_singleton]
  simp only [hlabel, resume_singleton, hs, hsecond, and_assoc, exists_and_left, exists_eq_left']
  rw [Draft.add_number k k', Draft.add_split hi l]
  exact ⟨fun ⟨hr, d₁, h₁, h₂⟩ => ⟨d₁, h₁, hr, h₂⟩, fun ⟨d₁, h₁, hr, h₂⟩ => ⟨hr, d₁, h₁, h₂⟩⟩

/-- Without the gap before it a command is trimmed on the left. -/
theorem trim_command {b r : List Char} {c : Command} (h : Text.trimEnd Text.isBlank b = c.text ++ r) :
    Text.trim b = (Source.flush c).text ++ r := by
  obtain ⟨x, u, hx⟩ := List.exists_cons_of_ne_nil (Source.keyword_ne_nil c.keyword)
  have hblank : Text.isBlank x = false :=
    Source.not_isBlank_of_capital (Source.keyword_chars c.keyword x (by simp [hx]))
  have hflush : (Source.flush c).text ++ r = x :: (u ++ (c.argument ++ r)) := by
    show [] ++ (c.keyword.text ++ c.argument) ++ r = _
    simp [hx]
  rw [hflush]
  refine Text.trimBy_of_trimEnd (a := c.gap.text) ?_ (fun y hy => ?_) hblank
  · rw [h, Source.flush_text, List.append_assoc, hflush]
  · exact Source.isBlank_of_isGap (c.gap.isGap y hy)

theorem alike_of_label {a b : List Char} {l : Line} {lb : Label} {c : Command}
    (h : l.text = Text.trim (a ++ ':' :: b)) (hl : l.statement = .instruction (some lb) c) (ha : ':' ∉ a) :
    Alike [a ++ ':' :: b] [a ++ [':'], b] := by
  have hcolon : Text.isBlank ':' = false := by decide
  have ha' : ':' ∉ a.dropWhile Text.isBlank := fun hmem => ha ((List.dropWhile_sublist _).subset hmem)
  obtain ⟨hlabel, hrest⟩ := Source.label_cut hl (h.trans (Text.trimBy_around hcolon a b)) ha'
  have hfirst : (Source.labelLine lb).text = Text.trim (a ++ [':']) := by
    rw [Source.labelLine_text, ← hlabel]
    exact (Text.trimBy_around hcolon a []).symm
  have hbounded : (Grammar.Statement.instruction none (Source.flush c)).Bounded l.tail.text := by
    have hb := l.bounded
    rw [hl] at hb
    exact hb
  let second : Line := ⟨.instruction none (Source.flush c), l.tail, hbounded⟩
  have hsecond : second.text = Text.trim b := (trim_command hrest).symm
  have hreadable : l.Readable ↔ second.Readable := by
    rw [Line.Readable, hl]
    rfl
  have hvalue : l.value = .instruction (c.value.withLabel (some lb.value)) := by
    rw [Line.value, hl]
    rfl
  refine alike_split (l := lb.value) (i := c.value) rfl (fun st => ?_) ?_ fun st => reads_iff_of_line hsecond
  · rw [reads_iff_of_line h, hreadable, hvalue]
  · exact (reads_iff_of_line hfirst).mpr ⟨Nat.zero_le _, rfl⟩

theorem alike_of_recased (h : List.Forall₂ (List.Forall₂ Text.Recased) lines lines') : Alike lines lines' := by
  induction h with
  | nil => exact .refl []
  | @cons s s' _ _ hs _ ih =>
      have hr : Alike [s] [s'] := alike_of_reads fun st => by
        rw [reads_iff, reads_iff, Source.read_congr (Text.small_eq_of_recased hs)]
      exact hr.append ih

/-! ## Changes of layout -/

/-- One change to the layout of a source. -/
inductive Relaid : List (List Char) → List (List Char) → Prop where
  | blank (before after : List (List Char)) {s : List Char} (h : Text.trim s = []) :
      Relaid (before ++ after) (before ++ s :: after)
  | remark (before after : List (List Char)) {s body : List Char} {mark : Char}
      (h : Text.trim s = mark :: body) (hm : mark = '#' ∨ mark = ';') (hn : '\n' ∉ body) :
      Relaid (before ++ after) (before ++ s :: after)
  | comment (before after : List (List Char)) {s body : List Char} {blank mark : Char}
      (hs : '\n' ∉ Text.trim s) (hblank : blank = ' ' ∨ blank = '\t' ∨ blank = '\r')
      (hm : mark = '#' ∨ mark = ';') (hn : '\n' ∉ body) :
      Relaid (before ++ s :: after) (before ++ (Text.trim s ++ blank :: mark :: body) :: after)
  | recase {lines lines' : List (List Char)} (h : List.Forall₂ (List.Forall₂ Text.Recased) lines lines') :
      Relaid lines lines'
  /-- The line has a label and an instruction, and is cut after the colon of the label. -/
  | split (before after : List (List Char)) {a b : List Char} {l : Line} {lb : Label} {c : Command}
      (h : l.text = Text.trim (a ++ ':' :: b)) (hl : l.statement = .instruction (some lb) c) (ha : ':' ∉ a) :
      Relaid (before ++ (a ++ ':' :: b) :: after) (before ++ (a ++ [':']) :: b :: after)

theorem Relaid.alike (h : Relaid lines lines') : Alike lines lines' := by
  cases h with
  | blank _ _ h => exact (alike_of_nothing ((reads_blank_iff h).mpr rfl)).between _ _
  | remark _ _ h hm hn =>
      have hr := (reads_remark_iff h (Source.isMark_iff.mpr hm) hn).mpr rfl
      exact (alike_of_nothing hr).between _ _
  | comment _ _ hs hblank hm hn =>
      have hr := alike_of_reads fun _ => reads_commented hs hblank (Source.isMark_iff.mpr hm) hn
      exact hr.between _ _
  | recase h => exact alike_of_recased h
  | split _ _ h hl ha => exact (alike_of_label h hl ha).between _ _

/-- A change of layout does not change which program is loaded, and not whether one is loaded. -/
theorem ofLines_relaid (h : Relaid lines lines') (p : Program) :
    ofLines lines = .ok p ↔ ofLines lines' = .ok p := h.alike.ofLines_eq p

/-- A line that says a label and an instruction is made of both. -/
theorem exists_label {l : Line} {op : Opcode} {o : Option Operand} {name : String}
    (h : l.value = .instruction ⟨op, o, some name⟩) : ∃ lb c, l.statement = .instruction (some lb) c := by
  obtain ⟨statement, tail, bounded⟩ := l
  cases statement with
  | nothing => cases h
  | label lb => cases h
  | instruction lb c =>
      cases lb with
      | none => simp [Line.value, Grammar.Statement.value] at h
      | some lb => exact ⟨lb, c, rfl⟩

/-- A loop with its label in front. -/
def looping : Program := .ofInstructions [⟨.jump, some (.tag "loop"), some "loop"⟩]

theorem ofLines_relaid_looping :
    ofLines ["Loop: jump loop".toList] = .ok looping ∧
      ofLines ["Loop:".toList, " jump loop".toList] = .ok looping ∧
      ofLines ["Loop:".toList, "; for ever".toList, " jump loop".toList] = .ok looping ∧
      ofLines ["LOOP:".toList, " Jump Loop".toList] = .ok looping ∧
      ofLines ["Loop:".toList, "jump loop # again".toList] = .ok looping := by
  have hone : ofLines ["Loop: jump loop".toList] = .ok looping := by decide +kernel
  have hreads : Reads "Loop: jump loop".toList (.instruction ⟨.jump, some (.tag "loop"), some "loop"⟩) :=
    reads_iff.mpr (by decide +kernel)
  obtain ⟨l, hl, -, hv⟩ := hreads
  obtain ⟨lb, c, hst⟩ := exists_label hv
  have hsplit : Relaid ["Loop: jump loop".toList] ["Loop:".toList, " jump loop".toList] :=
    .split (a := "Loop".toList) (b := " jump loop".toList) [] [] hl hst (by decide)
  have htwo := (ofLines_relaid hsplit looping).mp hone
  have hremark : Relaid ["Loop:".toList, " jump loop".toList]
      ["Loop:".toList, "; for ever".toList, " jump loop".toList] := by
    have h : Text.trim "; for ever".toList = ';' :: " for ever".toList := by decide
    exact .remark ["Loop:".toList] _ h (by decide) (by decide)
  have hrecase : Relaid ["Loop:".toList, " jump loop".toList] ["LOOP:".toList, " Jump Loop".toList] :=
    .recase (by simp [Text.Recased])
  have hcomment : Relaid ["Loop:".toList, " jump loop".toList] ["Loop:".toList, "jump loop # again".toList] := by
    have h : "jump loop # again".toList = Text.trim " jump loop".toList ++ ' ' :: '#' :: " again".toList := by decide
    rw [h]
    exact .comment ["Loop:".toList] [] (by decide) (by decide) (by decide) (by decide)
  exact ⟨hone, htwo, (ofLines_relaid hremark looping).mp htwo, (ofLines_relaid hrecase looping).mp htwo,
    (ofLines_relaid hcomment looping).mp htwo⟩

end RandomAccess.Program

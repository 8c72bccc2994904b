import Mathlib.Data.List.Induction
import RandomAccess.Proofs.Program.Offence
import RandomAccess.Proofs.Source.Printing

/-!
# Loading source lines

One line is loaded if its statement fits those before it and refused for its offence otherwise. So a list
of lines is loaded as the program it is the source of, and refused for its first offence.
-/

namespace RandomAccess.Program

open Grammar (Overlong)

/-! ## Lines -/

theorem reads_iff {s : List Char} {st : Source.Statement} :
    Reads s st ↔ Source.Statement.read (Text.trim s) = .ok st := by
  rw [Source.read_eq_ok_iff, Source.exists_line_iff]
  rfl

theorem overlong_iff {s : List Char} {n : Nat} :
    Overlong s n ↔ Source.Statement.read s = .error (.digitLimit (.reading n)) := by
  rw [Source.read_eq_digitLimit_iff, Source.statement_eq_error_iff]
  constructor
  · intro h
    exact ⟨n, rfl, h⟩
  · rintro ⟨_, ⟨⟩, h⟩
    exact h

theorem malformed_iff {s : List Char} :
    Malformed s ↔ ∃ place, Source.Statement.read (Text.trim s) = .error (.mismatch place) := by
  constructor
  · intro h
    cases hr : Source.Statement.read (Text.trim s) with
    | ok st => exact absurd (reads_iff.mpr hr) (h.1 st)
    | error e =>
        cases e with
        | mismatch place => exact ⟨place, rfl⟩
        | digitLimit e =>
            obtain ⟨n, rfl, hn⟩ := Source.statement_eq_error_iff.mp (Source.read_eq_digitLimit_iff.mp hr)
            exact absurd hn (h.2 n)
  · rintro ⟨place, hr⟩
    refine ⟨fun st h => ?_, fun n h => ?_⟩
    · rw [reads_iff.mp h] at hr
      cases hr
    · rw [overlong_iff.mp h] at hr
      cases hr

/-! ## Statements -/

variable {sts ts : List Source.Statement} {st : Source.Statement}

theorem attach_append (w : Option String) (sts ts : List Source.Statement) :
    attach w (sts ++ ts) = attach w sts ++ attach (waiting w sts) ts := by
  induction sts generalizing w with
  | nil => rfl
  | cons st sts ih =>
      cases st with
      | nothing => exact ih w
      | label l => exact ih (some l)
      | instruction i => exact congrArg (List.cons _) (ih none)

theorem waiting_append (w : Option String) (sts ts : List Source.Statement) :
    waiting w (sts ++ ts) = waiting (waiting w sts) ts := by
  induction sts generalizing w with
  | nil => rfl
  | cons st sts ih =>
      cases st with
      | nothing => exact ih w
      | label l => exact ih (some l)
      | instruction i => exact ih none

theorem names_append (sts ts : List Source.Statement) :
    names (sts ++ ts) =
      names sts ++ (attach (waiting none sts) ts).filterMap fun i => i.mark.map Text.lower := by
  rw [names, attach_append, List.filterMap_append]
  rfl

theorem map_fst_marks (k : Nat) (is : List Instruction) :
    (Instruction.marks k is).map Prod.fst = is.filterMap fun i => i.mark.map Text.lower := by
  induction is generalizing k with
  | nil => rfl
  | cons i is ih =>
      rw [Instruction.marks, List.map_append, ih]
      cases hm : i.mark with
      | none => simp [hm]
      | some l => simp [hm]

/-- The label that waits is the last statement, if what says nothing is left out. -/
theorem waiting_eq_some_iff {w : String} :
    waiting none sts = some w ↔ (sts.filter (· ≠ .nothing)).getLast? = some (.label w) := by
  induction sts using List.reverseRecOn with
  | nil => simp [waiting]
  | append_singleton sts st ih =>
      rw [waiting_append, List.filter_append]
      cases st with
      | nothing => simpa [waiting] using ih
      | label l => simp [waiting]
      | instruction i => simp [waiting]

theorem Clean.of_append (h : Clean (sts ++ ts)) : Clean sts := by
  obtain ⟨hf, hd⟩ := h
  rw [List.filter_append] at hf
  rw [names_append] at hd
  exact ⟨hf.left_of_append, (List.nodup_append.mp hd).1⟩

theorem follows_snoc_iff :
    ((sts ++ [st]).filter (· ≠ .nothing)).IsChain Follows ↔
      (sts.filter (· ≠ .nothing)).IsChain Follows ∧
        (st = .nothing ∨ ∀ w, waiting none sts = some w → ∃ i, st = .instruction i ∧ i.label = none) := by
  rw [List.filter_append, List.isChain_append]
  refine and_congr_right fun _ => ?_
  by_cases hst : st = .nothing
  · simp [hst]
  · simp only [hst, false_or, List.filter_cons, ne_eq, not_false_eq_true, decide_true, if_true,
      List.filter_nil, List.isChain_singleton, true_and, List.head?_cons, Option.mem_def,
      Option.some.injEq, forall_eq']
    constructor
    · intro h w hw
      exact h _ (waiting_eq_some_iff.mp hw) w rfl
    · rintro h x hx l rfl
      exact h l (waiting_eq_some_iff.mpr hx)

theorem names_snoc_nodup_iff {i : Instruction} :
    (names (sts ++ [.instruction i])).Nodup ↔ (names sts).Nodup ∧
      ∀ l, (i.withLabel (i.label.or (waiting none sts))).mark = some l → Text.lower l ∉ names sts := by
  rw [names_append, List.nodup_append]
  refine and_congr_right fun _ => ?_
  simp only [attach, List.filterMap_cons, List.filterMap_nil]
  cases hm : (i.withLabel (i.label.or (waiting none sts))).mark with
  | none => simp
  | some l =>
      simp only [Option.map_some, List.mem_singleton, forall_eq, Option.some.injEq, forall_eq']
      constructor
      · intro h hl
        exact h.2 _ hl rfl
      · intro h
        refine ⟨by simp, ?_⟩
        rintro a ha rfl
        exact h ha

/-- The statement may follow those before it. -/
def Fits (sts : List Source.Statement) : Source.Statement → Prop
  | .nothing => True
  | .label _ => waiting none sts = none
  | .instruction i => (i.label = none ∨ waiting none sts = none) ∧
      ∀ l, (i.withLabel (i.label.or (waiting none sts))).mark = some l → Text.lower l ∉ names sts

theorem clean_iff : Clean sts ↔ (sts.filter (· ≠ .nothing)).IsChain Follows ∧ (names sts).Nodup :=
  ⟨fun h => ⟨h.follows, h.distinct⟩, fun h => ⟨h.1, h.2⟩⟩

theorem clean_snoc_iff : Clean (sts ++ [st]) ↔ Clean sts ∧ Fits sts st := by
  rw [clean_iff, clean_iff, follows_snoc_iff]
  cases st with
  | nothing =>
      have hnames : names (sts ++ [.nothing]) = names sts := by simp [names_append, attach]
      simp only [hnames, true_or, and_true, Fits]
  | label l =>
      have hnames : names (sts ++ [.label l]) = names sts := by simp [names_append, attach]
      rw [hnames, Fits]
      cases waiting none sts with
      | none => simp
      | some w => simp
  | instruction i =>
      rw [names_snoc_nodup_iff, Fits]
      cases waiting none sts with
      | none => simp [and_assoc]
      | some w => simp [and_assoc, and_left_comm]

/-! ## One line -/

/-- The program in the course of loading, after the statements. -/
def draft (sts : List Source.Statement) : Draft := ⟨ofInstructions (attach none sts), waiting none sts⟩

variable {n : Nat} {s : List Char} {d : Draft}

theorem labels_draft : (draft sts).program.labels.map Prod.fst = names sts := map_fst_marks 0 _

theorem read_nil : Source.Statement.read [] = .ok .nothing := by decide

theorem Draft.line_of_digitLimit {e : DigitLimitError}
    (h : Source.Statement.read (Text.trim s) = .error (.digitLimit e)) :
    d.line n s = .error (.digitLimit e) := by
  cases ht : Text.trim s with
  | nil =>
      rw [ht, read_nil] at h
      cases h
  | cons c r =>
      rw [ht] at h
      simp only [Draft.line, ht, h]

theorem Draft.line_of_mismatch {place : Source.Mismatch}
    (h : Source.Statement.read (Text.trim s) = .error (.mismatch place)) :
    d.line n s = .error (.malformed n (String.ofList (Text.trim s)) place) := by
  cases ht : Text.trim s with
  | nil =>
      rw [ht, read_nil] at h
      cases h
  | cons c r =>
      rw [ht] at h
      simp only [Draft.line, ht, h]

/-- Adds what line `n` says. -/
def Draft.add (d : Draft) (n : Nat) : Source.Statement → Except LoadError Draft
  | .nothing => .ok d
  | .label l => d.label n l
  | .instruction i => d.instruction n i

theorem Draft.line_of_reads (h : Reads s st) : d.line n s = d.add n st := by
  rw [reads_iff] at h
  cases ht : Text.trim s with
  | nil =>
      rw [ht, read_nil] at h
      cases h
      simp only [Draft.line, ht]
      rfl
  | cons c r =>
      rw [ht] at h
      simp only [Draft.line, ht, h]
      cases st <;> rfl

theorem Draft.instruction_eq {i : Instruction} (h : i.label = none ∨ d.waiting = none) :
    d.instruction n i = do return { program := ← d.program.push (i.withLabel (i.label.or d.waiting)) } := by
  obtain ⟨p, w⟩ := d
  obtain ⟨op, o, l⟩ := i
  cases w with
  | none => cases l <;> rfl
  | some w =>
      cases l with
      | none => rfl
      | some l => rcases h with h | h <;> cases h

theorem push_eq_duplicateLabel {p : Program} {i : Instruction} {l : String}
    (ho : i.opcode ≠ .halt → i.operand ≠ none) (hm : i.mark = some l)
    (hl : Text.lower l ∈ p.labels.map Prod.fst) : p.push i = .error (.duplicateLabel (Text.lower l)) := by
  have ho' : ¬ (i.opcode ≠ .halt ∧ i.operand = none) := fun h => ho h.1 h.2
  simp only [push, if_neg ho', hm, lookup_isSome_iff_mem.mpr hl, if_true]

theorem operand_of_reads {i : Instruction} (h : Reads s (.instruction i)) (l : Option String) :
    (i.withLabel l).opcode ≠ .halt → (i.withLabel l).operand ≠ none := by
  intro hne ho
  exact hne ((sourced_of_read (reads_iff.mp h)).halt.mpr ho)

/-- A line whose statement fits is loaded. -/
theorem line_of_fits (h : Reads s st) (hf : Fits sts st) :
    (draft sts).line n s = .ok (draft (sts ++ [st])) := by
  rw [Draft.line_of_reads h]
  unfold draft
  rw [attach_append, waiting_append]
  cases st with
  | nothing =>
      simp only [attach, List.append_nil, waiting]
      rfl
  | label l =>
      have hw : waiting none sts = none := hf
      simp only [Draft.add, Draft.label, hw, attach, List.append_nil, waiting]
  | instruction i =>
      have hl : ∀ l, (i.withLabel (i.label.or (waiting none sts))).mark = some l →
          Text.lower l ∉ (Instruction.marks 0 (attach none sts)).map Prod.fst := by
        rw [map_fst_marks]
        exact hf.2
      simp only [Draft.add]
      rw [Draft.instruction_eq hf.1, push_ofInstructions (operand_of_reads h _) hl]
      rfl

/-- A line that offends is refused for its offence. -/
theorem line_of_offends {e : LoadError} (h : Offends n sts s e) : (draft sts).line n s = .error e := by
  cases h with
  | overlong h => exact Draft.line_of_digitLimit (overlong_iff.mp h)
  | malformed h hr => exact Draft.line_of_mismatch hr
  | labelWaiting h hw =>
      rw [Draft.line_of_reads h]
      simp only [Draft.add, Draft.label, draft, hw]
  | twoLabels h hl hw =>
      rw [Draft.line_of_reads h]
      simp only [Draft.add, Draft.instruction, draft, hw, hl]
  | @duplicateLabel l i h hl hm hmem =>
      have hpush : (draft sts).program.push (i.withLabel (i.label.or (draft sts).waiting)) =
          .error (.duplicateLabel (Text.lower l)) := by
        refine push_eq_duplicateLabel (operand_of_reads h _) hm ?_
        rwa [labels_draft]
      rw [Draft.line_of_reads h, Draft.add, Draft.instruction_eq hl, hpush]
      rfl

/-- A line says something that fits, or it offends. -/
theorem fits_or_offends (n : Nat) (sts : List Source.Statement) (s : List Char) :
    (∃ st, Reads s st ∧ Fits sts st) ∨ ∃ e, Offends n sts s e := by
  cases hr : Source.Statement.read (Text.trim s) with
  | error e =>
      right
      cases e with
      | digitLimit e =>
          obtain ⟨k, rfl, hk⟩ := Source.statement_eq_error_iff.mp (Source.read_eq_digitLimit_iff.mp hr)
          exact ⟨_, .overlong hk⟩
      | mismatch place =>
          exact ⟨_, .malformed (malformed_iff.mpr ⟨place, hr⟩) hr⟩
  | ok st =>
      have hs : Reads s st := reads_iff.mpr hr
      cases st with
      | nothing => exact Or.inl ⟨_, hs, trivial⟩
      | label l =>
          cases hw : waiting none sts with
          | none => exact Or.inl ⟨_, hs, hw⟩
          | some w => exact Or.inr ⟨_, .labelWaiting hs hw⟩
      | instruction i =>
          by_cases hl : i.label = none ∨ waiting none sts = none
          · by_cases hm : ∀ l, (i.withLabel (i.label.or (waiting none sts))).mark = some l →
                Text.lower l ∉ names sts
            · exact Or.inl ⟨_, hs, hl, hm⟩
            · simp only [not_forall, not_not] at hm
              obtain ⟨l, hm, hmem⟩ := hm
              exact Or.inr ⟨_, .duplicateLabel hs hl hm hmem⟩
          · rw [not_or] at hl
            obtain ⟨own, hown⟩ := Option.ne_none_iff_exists'.mp hl.1
            obtain ⟨w, hw⟩ := Option.ne_none_iff_exists'.mp hl.2
            exact Or.inr ⟨_, .twoLabels hs hown hw⟩

/-! ## All lines -/

/-- The fold over the lines, from statements that were loaded before. -/
def resume (k : Nat) (d : Draft) (lines : List (List Char)) : Except LoadError Draft :=
  (lines.zipIdx k).foldlM (fun d (s, n) => Draft.line d n s) d

theorem resume_of_clean {lines : List (List Char)} (k : Nat) (sts : List Source.Statement)
    (hs : List.Forall₂ Reads lines ts) (h : Clean (sts ++ ts)) : resume k (draft sts) lines = .ok (draft (sts ++ ts)) := by
  induction hs generalizing sts k with
  | nil =>
      rw [List.append_nil]
      rfl
  | cons hread hrest ih =>
      rename_i s st lines ts
      rw [List.append_cons] at h ⊢
      have hfits : Fits sts st := (clean_snoc_iff.mp h.of_append).2
      rw [resume, List.zipIdx_cons, List.foldlM_cons]
      exact bind_eq_ok_iff.mpr ⟨_, line_of_fits hread hfits, ih (k + 1) _ h⟩

theorem resume_of_offends {before after : List (List Char)} {e : LoadError}
    (hs : List.Forall₂ Reads before sts) (h : Clean sts) (ho : Offends (before.length + 1) sts s e) :
    resume 1 (draft []) (before ++ s :: after) = .error e := by
  have hbefore : resume 1 (draft []) before = .ok (draft sts) := resume_of_clean 1 [] hs h
  have hline : (draft sts).line (1 + before.length) s = .error e := by
    rw [Nat.add_comm]
    exact line_of_offends ho
  unfold resume at hbefore ⊢
  rw [List.zipIdx_append, List.foldlM_append, hbefore, List.zipIdx_cons]
  simp only [List.foldlM_cons, bind, Except.bind, hline]

/-- The lines are clean up to their end or up to a line that offends. -/
theorem clean_or_offends (k : Nat) (lines : List (List Char)) (h : Clean sts) :
    (∃ ts, List.Forall₂ Reads lines ts ∧ Clean (sts ++ ts)) ∨
      ∃ before s after ts e, lines = before ++ s :: after ∧ List.Forall₂ Reads before ts ∧ Clean (sts ++ ts) ∧
        Offends (before.length + k) (sts ++ ts) s e := by
  -- the statements that were read grow as the lines are used up
  induction lines generalizing sts k with
  | nil => exact Or.inl ⟨[], .nil, by rwa [List.append_nil]⟩
  | cons s lines ih =>
      rcases fits_or_offends k sts s with ⟨st, hs, hf⟩ | ⟨e, he⟩
      · rcases ih (k + 1) (clean_snoc_iff.mpr ⟨h, hf⟩) with
          ⟨ts, hts, hc⟩ | ⟨before, s', after, ts, e, rfl, hts, hc, ho⟩
        · exact Or.inl ⟨st :: ts, .cons hs hts, by rwa [List.append_cons]⟩
        · refine Or.inr ⟨s :: before, s', after, st :: ts, e, rfl, .cons hs hts, ?_, ?_⟩
          · rwa [List.append_cons]
          · rw [List.append_cons, List.length_cons, Nat.add_right_comm, Nat.add_assoc]
            exact ho
      · refine Or.inr ⟨[], s, lines, [], e, rfl, .nil, by rwa [List.append_nil], ?_⟩
        rw [List.append_nil, List.length_nil, Nat.zero_add]
        exact he

/-! ## The end -/

/-- The tag of an instruction, if it is none of the labels. -/
def undefined? (labels : List (String × Nat)) (i : Instruction) : Option String :=
  match i.operand with
  | some (.tag t) => if (labels.lookup t).isSome then none else some t
  | _ => none

theorem undefined?_eq_some_iff {i : Instruction} {t : String} :
    undefined? (draft sts).program.labels i = some t ↔ i.operand = some (.tag t) ∧ t ∉ names sts := by
  rw [← labels_draft, ← lookup_isSome_iff_mem]
  unfold undefined?
  split
  · rename_i t' ho
    rw [ho]
    split
    · rename_i h
      constructor
      · intro hn
        cases hn
      · rintro ⟨⟨⟩, hn⟩
        exact absurd h hn
    · rename_i h
      constructor
      · rintro ⟨⟩
        exact ⟨rfl, h⟩
      · rintro ⟨⟨⟩, -⟩
        rfl
  · rename_i ho
    constructor
    · intro hn
      cases hn
    · rintro ⟨h, -⟩
      exact absurd h (ho t)

theorem undefined?_eq_none_iff {i : Instruction} :
    undefined? (draft sts).program.labels i = none ↔ Defined sts i := by
  rw [Option.eq_none_iff_forall_ne_some]
  refine forall_congr' fun t => ?_
  rw [ne_eq, undefined?_eq_some_iff, not_and, not_not]

theorem undefinedTag?_draft :
    (draft sts).program.undefinedTag? = (attach none sts).findSome? (undefined? (draft sts).program.labels) :=
  rfl

theorem finish_of_defined (hw : waiting none sts = none) (h : ∀ i ∈ attach none sts, Defined sts i) :
    (draft sts).finish = .ok (ofInstructions (attach none sts)) := by
  have hu : (draft sts).program.undefinedTag? = none := by
    rw [undefinedTag?_draft, List.findSome?_eq_none_iff]
    exact fun i hi => undefined?_eq_none_iff.mpr (h i hi)
  simp only [Draft.finish, show (draft sts).waiting = none from hw, hu]
  rfl

theorem finish_of_undefined {is js : List Instruction} {i : Instruction} {t : String}
    (hw : waiting none sts = none) (ha : attach none sts = is ++ i :: js) (h : ∀ j ∈ is, Defined sts j)
    (hi : i.operand = some (.tag t)) (ht : t ∉ names sts) :
    (draft sts).finish = .error (.undefinedTag t) := by
  have hu : (draft sts).program.undefinedTag? = some t := by
    rw [undefinedTag?_draft, List.findSome?_eq_some_iff]
    refine ⟨is, i, js, ha, undefined?_eq_some_iff.mpr ⟨hi, ht⟩, fun j hj => ?_⟩
    exact undefined?_eq_none_iff.mpr (h j hj)
  simp only [Draft.finish, show (draft sts).waiting = none from hw, hu]

theorem finish_of_waiting {w : String} (hw : waiting none sts = some w) :
    (draft sts).finish = .error (.danglingLabel w) := by
  simp only [Draft.finish, show (draft sts).waiting = some w from hw]

/-! ## Loading -/

variable {lines : List (List Char)}

theorem ofLines_eq_resume (lines : List (List Char)) :
    ofLines lines = resume 1 (draft []) lines >>= Draft.finish := rfl

theorem ofLines_of_clean (hs : List.Forall₂ Reads lines sts) (h : Clean sts) :
    ofLines lines = (draft sts).finish := by
  rw [ofLines_eq_resume, resume_of_clean 1 [] hs h]
  rfl

theorem Loads.ofLines_eq {p : Program} (h : Loads lines p) : ofLines lines = .ok p := by
  obtain ⟨sts, hs, hc, hw, hd, rfl⟩ := h
  rw [ofLines_of_clean hs hc, finish_of_defined hw hd]

theorem FirstOffence.ofLines_eq {e : LoadError} (h : FirstOffence lines e) : ofLines lines = .error e := by
  cases h with
  | line hlines hs hc ho =>
      rw [hlines, ofLines_eq_resume, resume_of_offends hs hc ho]
      rfl
  | danglingLabel hs hc hw => rw [ofLines_of_clean hs hc, finish_of_waiting hw]
  | undefinedTag hs hc hw ha hd hi ht =>
      rw [ofLines_of_clean hs hc, finish_of_undefined hw ha hd hi ht]

/-- Lines that are no program have a first offence. -/
theorem loads_or_offends (lines : List (List Char)) :
    (∃ p, Loads lines p) ∨ ∃ e, FirstOffence lines e := by
  have hnil : Clean [] := ⟨.nil, List.nodup_nil⟩
  rcases clean_or_offends 1 lines hnil with ⟨sts, hs, hc⟩ | ⟨before, s, after, sts, e, hl, hs, hc, ho⟩
  · rw [List.nil_append] at hc
    cases hw : waiting none sts with
    | some w => exact Or.inr ⟨_, .danglingLabel hs hc hw⟩
    | none =>
        cases hu : (draft sts).program.undefinedTag? with
        | none =>
            rw [undefinedTag?_draft, List.findSome?_eq_none_iff] at hu
            exact Or.inl ⟨_, sts, hs, hc, hw, fun i hi => undefined?_eq_none_iff.mp (hu i hi), rfl⟩
        | some t =>
            rw [undefinedTag?_draft, List.findSome?_eq_some_iff] at hu
            obtain ⟨is, i, js, ha, hi, hd⟩ := hu
            obtain ⟨hi, ht⟩ := undefined?_eq_some_iff.mp hi
            have hdef : ∀ j ∈ is, Defined sts j := fun j hj => undefined?_eq_none_iff.mp (hd j hj)
            exact Or.inr ⟨_, .undefinedTag hs hc hw ha hdef hi ht⟩
  · exact Or.inr ⟨e, .line hl hs hc ho⟩

theorem loads_of_ofLines {p : Program} (h : ofLines lines = .ok p) : Loads lines p := by
  rcases loads_or_offends lines with ⟨p', hp⟩ | ⟨e, he⟩
  · have hp' := hp.ofLines_eq
    rw [h] at hp'
    cases hp'
    exact hp
  · rw [he.ofLines_eq] at h
    cases h

theorem firstOffence_of_ofLines {e : LoadError} (h : ofLines lines = .error e) : FirstOffence lines e := by
  rcases loads_or_offends lines with ⟨p, hp⟩ | ⟨e', he⟩
  · rw [hp.ofLines_eq] at h
    cases h
  · have he' := he.ofLines_eq
    rw [h] at he'
    cases he'
    exact he

/-- The lines are loaded exactly as the program they are the source of, and refused exactly for their first
offence. -/
theorem ofLines_eq_iff (lines : List (List Char)) :
    (∀ p, ofLines lines = .ok p ↔ Loads lines p) ∧ ∀ e, ofLines lines = .error e ↔ FirstOffence lines e :=
  ⟨fun _ => ⟨loads_of_ofLines, Loads.ofLines_eq⟩, fun _ => ⟨firstOffence_of_ofLines, FirstOffence.ofLines_eq⟩⟩

theorem ofLines_eq_iff_twoLabels :
    FirstOffence ["a:".toList, "".toList, "b: halt".toList, "load".toList] (.twoLabels 3 "a" "b") :=
  ((ofLines_eq_iff _).2 _).mp (by decide +kernel)

end RandomAccess.Program

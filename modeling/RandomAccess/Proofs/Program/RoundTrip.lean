import RandomAccess.Proofs.Program.Loading

/-!
# Loading what was printed

A loaded program is loaded again from the texts of its instructions and from the lines of its listing.
-/

namespace RandomAccess.Program

open Grammar (Gap)

/-! ## Loaded instructions -/

theorem sourced_attach {lines : List (List Char)} {sts : List Source.Statement} {w : Option String}
    (hs : List.Forall₂ Reads lines sts) (hw : ∀ l, w = some l → IsTag l) :
    ∀ i ∈ attach w sts, i.Sourced := by
  induction hs generalizing w with
  | nil => exact nofun
  | cons hread hrest ih =>
      rename_i s st lines sts
      have hread := reads_iff.mp hread
      cases st with
      | nothing => exact ih hw
      | label l =>
          refine ih fun m hm => ?_
          cases hm
          exact isTag_of_read hread
      | instruction i =>
          have hi := sourced_of_read hread
          intro j hj
          rcases List.mem_cons.mp hj with rfl | hj
          · refine ⟨hi.operand, hi.halt, fun l hl => ?_⟩
            rcases Option.or_eq_some_iff.mp hl with h | ⟨-, h⟩
            · exact hi.label l h
            · exact hw l h
          · exact ih (w := none) nofun j hj

theorem sourced_of_ofLines {lines : List (List Char)} {p : Program} (h : ofLines lines = .ok p) :
    ∀ i ∈ p.instructions.toList, i.Sourced := by
  obtain ⟨sts, hs, -, -, -, rfl⟩ := loads_of_ofLines h
  exact sourced_attach hs nofun

/-! ## Loading printed instructions -/

/-- The line shows the instruction. -/
def Shows (s : List Char) (i : Instruction) : Prop := i.Sourced ∧ ∃ g : Gap, Text.trim s = i.printed g

theorem Shows.reads {s : List Char} {i : Instruction} (h : Shows s i) : Reads s (.instruction i) := by
  obtain ⟨hi, g, hg⟩ := h
  rw [reads_iff, hg]
  exact hi.read_printed g

theorem attach_instructions (is : List Instruction) : attach none (is.map .instruction) = is := by
  induction is with
  | nil => rfl
  | cons i is ih =>
      rw [List.map_cons, attach, ih, Option.or_none]
      rfl

theorem waiting_instructions (is : List Instruction) : waiting none (is.map .instruction) = none := by
  induction is with
  | nil => rfl
  | cons i is ih => exact ih

theorem follows_instructions (is : List Instruction) :
    ((is.map Source.Statement.instruction).filter (· ≠ .nothing)).IsChain Follows := by
  have hall : ∀ st ∈ is.map Source.Statement.instruction, decide (st ≠ .nothing) = true := by
    intro st hst
    obtain ⟨i, -, rfl⟩ := List.mem_map.mp hst
    simp
  rw [List.filter_eq_self.mpr hall]
  refine (List.pairwise_map.mpr ?_).isChain
  exact List.pairwise_of_forall fun _ _ l hl => nomatch hl

/-- Lines that show the instructions of a loaded program are a source of it. -/
theorem ofLines_of_shows {lines lines' : List (List Char)} {p : Program} (h : ofLines lines = .ok p)
    (hs : List.Forall₂ Shows lines' p.instructions.toList) : ofLines lines' = .ok p := by
  obtain ⟨sts, -, hc, -, hd, rfl⟩ := loads_of_ofLines h
  change List.Forall₂ Shows lines' (attach none sts) at hs
  have hnames : names ((attach none sts).map .instruction) = names sts := by
    rw [names, attach_instructions]
    rfl
  refine Loads.ofLines_eq ⟨(attach none sts).map .instruction, ?_, ⟨follows_instructions _, ?_⟩,
    waiting_instructions _, ?_, ?_⟩
  · exact List.forall₂_map_right_iff.mpr (hs.imp fun _ _ => Shows.reads)
  · rw [hnames]
    exact hc.distinct
  · rw [attach_instructions]
    unfold Defined
    rw [hnames]
    exact hd
  · rw [attach_instructions]

theorem shows_text {i : Instruction} (hi : i.Sourced) : Shows i.text.toList i :=
  ⟨hi, Source.space, by rw [hi.toList_text, hi.trim_printed]⟩

/-! ## Listings -/

/-- A line of a listing without its index and the blank after it. -/
def dropIndex (line : List Char) : List Char := ((line.dropWhile (· = ' ')).dropWhile Char.isDigit).drop 1

def spaces (n : Nat) : Gap := ⟨List.replicate n ' ', fun _ hc => List.eq_of_mem_replicate hc ▸ rfl⟩

/-- The columns of a listing after the index. -/
def columns (i : Instruction) : List Char :=
  match i.label with
  | none => List.replicate 11 ' ' ++ i.body.toList
  | some l => l.toList ++ ':' :: ((spaces (10 - (l.length + 1) + 1)).text ++ i.body.toList)

theorem toList_row (k : Nat) {i : Instruction} (hi : i.Sourced) :
    (row k i).toList =
      List.replicate (4 - (toString k).length) ' ' ++ (Nat.toDigits 10 k ++ ' ' :: columns i) := by
  have hk : (toString k).toList = Nat.toDigits 10 k := by
    rw [Nat.toString_eq_ofList_toDigits, String.toList_ofList]
  unfold row columns
  rw [hi.mark_eq]
  cases i.label with
  | none =>
      simp only [padLeft, padRight, String.toList_append, String.toList_ofList, hk, List.append_assoc]
      rfl
  | some l =>
      simp only [padLeft, padRight, String.toList_append, String.toList_ofList, hk, List.append_assoc,
        spaces, List.replicate_succ', String.length_append]
      rfl

theorem dropIndex_row (k : Nat) {i : Instruction} (hi : i.Sourced) :
    dropIndex (row k i).toList = columns i := by
  have hspaces : ∀ c ∈ List.replicate (4 - (toString k).length) ' ', decide (c = ' ') = true :=
    fun c hc => by simp [List.eq_of_mem_replicate hc]
  have hdigits : Text.Ends (· = ' ') (Nat.toDigits 10 k ++ ' ' :: columns i) := by
    refine Text.ends_append (fun c r hc => ?_) Nat.toDigits_ne_nil
    have hd : c.isDigit = true := Numeral.isDigit_toDigits c (by rw [hc]; simp)
    have hne : c ≠ ' ' := by rintro rfl; exact absurd hd (by decide)
    simpa using hne
  rw [dropIndex, toList_row k hi, Text.dropWhile_run hspaces hdigits,
    Text.dropWhile_run Numeral.isDigit_toDigits (.cons (by decide))]
  rfl

theorem shows_columns {i : Instruction} (hi : i.Sourced) : Shows (columns i) i := by
  refine ⟨hi, ?_⟩
  unfold columns
  cases hl : i.label with
  | none =>
      have hprinted : ∀ g, i.printed g = i.body.toList := fun g => by simp only [Instruction.printed, hl]
      refine ⟨Source.space, ?_⟩
      have htrim := hi.trim_printed Source.space
      rw [hprinted] at htrim ⊢
      rw [Text.trim, Text.trimBy_append fun c hc => by rw [List.eq_of_mem_replicate hc]; decide]
      exact htrim
  | some l =>
      refine ⟨spaces (10 - (l.length + 1) + 1), ?_⟩
      have htrim := hi.trim_printed (spaces (10 - (l.length + 1) + 1))
      simpa only [Instruction.printed, hl] using htrim

theorem isInk_columns {i : Instruction} (hi : i.Sourced) : ∀ c ∈ columns i, c = ' ' ∨ isInk c = true := by
  intro c hc
  unfold columns at hc
  cases hl : i.label with
  | none =>
      rw [hl] at hc
      rcases List.mem_append.mp hc with hc | hc
      · exact Or.inl (List.eq_of_mem_replicate hc)
      · exact hi.isInk_body c hc
  | some l =>
      rw [hl] at hc
      rcases List.mem_append.mp hc with hc | hc
      · exact Or.inr ((hi.label l hl).inked.2 c hc)
      · rcases List.mem_cons.mp hc with rfl | hc
        · exact Or.inr (by decide)
        · rcases List.mem_append.mp hc with hc | hc
          · exact Or.inl (List.eq_of_mem_replicate hc)
          · exact hi.isInk_body c hc

theorem newline_notMem_row (k : Nat) {i : Instruction} (hi : i.Sourced) : '\n' ∉ (row k i).toList := by
  intro h
  have hnot : ¬ ('\n' = ' ' ∨ isInk '\n' = true) := by decide
  rw [toList_row k hi] at h
  rcases List.mem_append.mp h with h | h
  · exact hnot (Or.inl (List.eq_of_mem_replicate h))
  · rcases List.mem_append.mp h with h | h
    · exact hnot (Or.inr ((inked_toDigits k).2 _ h))
    · rcases List.mem_cons.mp h with h | h
      · exact hnot (Or.inl h)
      · exact hnot (isInk_columns hi _ h)

theorem shows_rows (k : Nat) {is : List Instruction} (h : ∀ i ∈ is, i.Sourced) :
    List.Forall₂ Shows (((is.zipIdx k).map fun (i, k) => row k i).map (dropIndex ∘ String.toList)) is := by
  induction is generalizing k with
  | nil => exact .nil
  | cons i is ih =>
      have hi := h i (by simp)
      simp only [List.zipIdx_cons, List.map_cons, Function.comp_apply, dropIndex_row k hi]
      exact .cons (shows_columns hi) (ih (k + 1) fun j hj => h j (by simp [hj]))

/-- The lines of the listing show the instructions of the program, unless it has none. -/
theorem lines_listing {p : Program} (h : ∀ i ∈ p.instructions.toList, i.Sourced)
    (hne : p.instructions.toList ≠ []) :
    Text.lines ("\n".intercalate p.rows).toList = p.rows.map String.toList := by
  rw [Text.lines, String.toList_intercalate]
  refine List.splitOn_intercalate '\n' ?_ ?_
  · intro l hl
    simp only [rows, List.map_map, List.mem_map] at hl
    obtain ⟨⟨i, k⟩, hik, rfl⟩ := hl
    exact newline_notMem_row k (h i (List.fst_mem_of_mem_zipIdx hik))
  · simpa [rows] using hne

/-- A program that is loaded from lines is loaded again, with the same instructions and labels, from the
texts of its instructions and from its listing without the indices. -/
theorem ofLines_printed {lines : List (List Char)} {p : Program} (h : ofLines lines = .ok p) :
    (∀ i ∈ p.instructions.toList, i.writable = true) ∧
      ofLines (p.instructions.toList.map fun i => i.text.toList) = .ok p ∧
      ∃ s, p.listing = .ok s ∧ ofLines ((Text.lines s.toList).map dropIndex) = .ok p := by
  have hi := sourced_of_ofLines h
  have hw : ∀ i ∈ p.instructions.toList, i.writable = true := fun i hmem => (hi i hmem).writable
  refine ⟨hw, ?_, "\n".intercalate p.rows, ?_, ?_⟩
  · refine ofLines_of_shows h (List.forall₂_map_left_iff.mpr (List.forall₂_same.mpr ?_))
    exact fun i hmem => shows_text (hi i hmem)
  · have hall : p.instructions.all (·.writable) = true := by
      rw [← Array.all_toList, List.all_eq_true]
      exact hw
    simp only [listing, hall, if_true]
  · by_cases hne : p.instructions.toList = []
    · obtain ⟨sts, -, -, -, -, rfl⟩ := loads_of_ofLines h
      rw [show attach none sts = [] from hne]
      rfl
    · rw [lines_listing hi hne, List.map_map]
      exact ofLines_of_shows h (shows_rows 0 hi)

/-- Labels that are spelled like keywords. -/
def keywordLabels : List (List Char) :=
  ["Halt: load =-5".toList, "load:".toList, "jgtz HALT".toList, "halt x".toList]

theorem ofLines_printed_keywordLabels :
    ∃ p, ofLines keywordLabels = .ok p ∧ p.labels = [("halt", 0), ("load", 1)] ∧
      ofLines (p.instructions.toList.map fun i => i.text.toList) = .ok p ∧
      ∃ s, p.listing = .ok s ∧ ofLines ((Text.lines s.toList).map dropIndex) = .ok p := by
  have h : ofLines keywordLabels = .ok (ofInstructions
      [⟨.load, some (.constant (-5)), some "halt"⟩, ⟨.jgtz, some (.tag "halt"), some "load"⟩,
        ⟨.halt, none, none⟩]) := by
    decide +kernel
  exact ⟨_, h, by decide +kernel, (ofLines_printed h).2⟩

end RandomAccess.Program

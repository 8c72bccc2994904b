import RandomAccess.Proofs.Program.RoundTrip

/-!
# What loading guarantees

The instructions of a program that is loaded from lines have the operands that their operations need, the
label table finds each label where it stands and nothing else, and every tag is in it.
-/

namespace RandomAccess

/-! ## Small letters -/

theorem Text.lowerAfter_eq_self {s : List Char} (h : ∀ c ∈ s, c ≠ '\u03A3' ∧ Text.lowerChar c = [c])
    (before : List Char) : Text.lowerAfter before s = s := by
  induction s generalizing before with
  | nil => rfl
  | cons c s ih =>
      obtain ⟨hc, hl⟩ := h c (by simp)
      rw [Text.lowerAfter, if_neg hc, hl, ih fun d hd => h d (by simp [hd])]
      rfl

theorem lowerChar_toLower {c : Char} (h : Source.isTagChar c = true) :
    c.toLower ≠ '\u03A3' ∧ Text.lowerChar c.toLower = [c.toLower] :=
  Text.forall_ascii
    (P := fun c => Source.isTagChar c = true →
      c.toLower ≠ '\u03A3' ∧ Text.lowerChar c.toLower = [c.toLower])
    (by decide +kernel) (Source.toNat_lt_of_isTagChar h) h

/-- A tag is in small letters. -/
theorem IsTag.lower_eq {t : String} (h : IsTag t) : Text.lower t = t := by
  obtain ⟨n, rfl⟩ := h
  rw [Text.lower, Grammar.Tag.value, String.toList_ofList, Text.lowerAfter_eq_self]
  intro c hc
  obtain ⟨d, hd, rfl⟩ := List.mem_map.mp hc
  exact lowerChar_toLower (Source.tag_chars n d hd)

/-! ## Labels and their indices -/

theorem Instruction.marks_snd_sublist (k : Nat) (is : List Instruction) :
    ((marks k is).map Prod.snd).Sublist (List.range' k is.length) := by
  induction is generalizing k with
  | nil => exact .slnil
  | cons i is ih =>
      rw [marks, List.map_append, List.length_cons, List.range'_succ]
      cases i.mark with
      | none => exact (ih (k + 1)).cons k
      | some l => exact (ih (k + 1)).cons_cons k

namespace Program

variable {p : Program} {lines : List (List Char)}

/-- The instructions with their indices. -/
def records (p : Program) : List (Int × Instruction) :=
  p.instructions.toList.zipIdx.map fun (i, k) => ((k : Int), i)

/-- Records are loaded one after the other, each at the end of the instructions before it. -/
theorem foldlM_records (is js : List Instruction)
    (ho : ∀ i ∈ js, i.opcode ≠ .halt → i.operand ≠ none)
    (hd : ((Instruction.marks 0 (is ++ js)).map Prod.fst).Nodup) :
    ((js.zipIdx is.length).map fun (i, k) => ((k : Int), i)).foldlM (fun p (index, i) =>
      if index ≠ p.size then
        .error (if Numeral.writable index then .outOfOrder index else .digitLimit .writing)
      else p.push i) (ofInstructions is) =
        (.ok (ofInstructions (is ++ js)) : Except LoadError Program) := by
  induction js generalizing is with
  | nil =>
      rw [List.append_nil]
      rfl
  | cons j js ih =>
      have hsize : (is.length : Int) = (ofInstructions is).size := by simp [ofInstructions, size]
      have hpush : (ofInstructions is).push j = .ok (ofInstructions (is ++ [j])) := by
        refine push_ofInstructions (ho j (by simp)) fun l hl hmem => ?_
        rw [Instruction.marks_append, List.map_append, List.nodup_append] at hd
        refine hd.2.2 _ hmem (Text.lower l) ?_ rfl
        simp [Instruction.marks, hl]
      have hrest := ih (is ++ [j]) (fun i hi => ho i (by simp [hi])) (by simpa using hd)
      rw [List.zipIdx_cons, List.map_cons, List.foldlM_cons]
      refine bind_eq_ok_iff.mpr ⟨ofInstructions (is ++ [j]), ?_, ?_⟩
      · simpa only [hsize, ne_eq, not_true_eq_false, if_false] using hpush
      · rw [List.length_append] at hrest
        simpa using hrest

/-- The instructions of a loaded program carry their own indices. -/
theorem WellFormed.ofRecords_records (hp : p.WellFormed) : Program.ofRecords p.records = .ok p := by
  have hp' : p = ofInstructions p.instructions.toList := by
    obtain ⟨is, ls⟩ := p
    have hl := hp.labels
    simp only at hl
    rw [hl]
    rfl
  have h := foldlM_records [] p.instructions.toList hp.operand (by simpa [← hp.labels] using hp.distinct)
  rw [List.nil_append, ← hp'] at h
  exact h

/-! ## Loaded programs -/

structure Sound (p : Program) : Prop where
  index : ofRecords p.records = .ok p
  operand : ∀ i ∈ p.instructions, i.operand = none ↔ i.opcode = .halt
  register : ∀ i ∈ p.instructions, ∀ j,
    i.operand = some (.direct j) ∨ i.operand = some (.indirect j) → 0 ≤ j
  /-- The table finds a label exactly at the instruction that carries it. -/
  label : ∀ l k, p.labels.lookup l = some k ↔ ∃ i, p.instructions[k]? = some i ∧ i.label = some l
  lowercase : ∀ l ∈ p.labels.map Prod.fst, Text.lower l = l
  /-- No label comes twice, and no instruction has two. -/
  distinct : (p.labels.map Prod.fst).Nodup ∧ (p.labels.map Prod.snd).Nodup
  tag : ∀ i ∈ p.instructions, ∀ t, i.operand = some (.tag t) → t ∈ p.labels.map Prod.fst

theorem lookup_iff_label (hp : p.WellFormed) (hs : ∀ i ∈ p.instructions.toList, i.Sourced) (l : String)
    (k : Nat) : p.labels.lookup l = some k ↔ ∃ i, p.instructions[k]? = some i ∧ i.label = some l := by
  rw [lookup_eq_some_iff_mem hp.distinct, hp.labels, Instruction.mem_marks]
  constructor
  · rintro ⟨n, i, t, rfl, hi, ht, rfl⟩
    have hsi := hs i (List.mem_of_getElem? hi)
    rw [hsi.mark_eq] at ht
    rw [(hsi.label t ht).lower_eq]
    exact ⟨i, by simpa using hi, ht⟩
  · rintro ⟨i, hi, hl⟩
    have hsi := hs i (List.mem_of_getElem? (by simpa using hi))
    exact ⟨k, i, l, by omega, by simpa using hi, by rw [hsi.mark_eq, hl], (hsi.label l hl).lower_eq⟩

/-- What is loaded from lines is sound. -/
theorem Sound.ofLines (h : ofLines lines = .ok p) : p.Sound := by
  have hp := WellFormed.ofLines h
  have hs := sourced_of_ofLines h
  have hlabel := lookup_iff_label hp hs
  have hmem : ∀ i ∈ p.instructions, i.Sourced := fun i hi => hs i (Array.mem_toList_iff.mpr hi)
  refine ⟨hp.ofRecords_records, fun i hi => (hmem i hi).halt.symm, ?_, hlabel, ?_, ⟨hp.distinct, ?_⟩, ?_⟩
  · rintro i hi j (ho | ho)
    all_goals
      obtain ⟨n, rfl, -⟩ := (hmem i hi).operand _ ho
      exact Int.natCast_nonneg n
  · intro l hl
    obtain ⟨k, hk⟩ := Option.isSome_iff_exists.mp (lookup_isSome_iff_mem.mpr hl)
    obtain ⟨i, hi, hil⟩ := (hlabel l k).mp hk
    exact ((hmem i (Array.mem_of_getElem? hi)).label l hil).lower_eq
  · rw [hp.labels]
    exact (Instruction.marks_snd_sublist 0 _).nodup List.nodup_range'
  · intro i hi t ht
    obtain ⟨sts, -, -, -, hd, rfl⟩ := loads_of_ofLines h
    have hnames : (ofInstructions (attach none sts)).labels.map Prod.fst = names sts := map_fst_marks 0 _
    rw [hnames]
    exact hd i (by simpa [ofInstructions] using hi) t ht

theorem Ready.ofLines (h : ofLines lines = .ok p) : p.Ready where
  loaded := Or.inl ⟨lines, h⟩
  writable := fun i hi => (sourced_of_ofLines h i (Array.mem_toList_iff.mpr hi)).writable

/-- The tags of a sound program have targets. -/
theorem Sound.exists_target (hp : p.Sound) {i : Instruction} (hi : i ∈ p.instructions) {t : String}
    (ht : i.operand = some (.tag t)) : ∃ k, p.target t = .ok k := by
  have hmem := hp.tag i hi t ht
  obtain ⟨k, hk⟩ := Option.isSome_iff_exists.mp (lookup_isSome_iff_mem.mpr hmem)
  rw [← hp.lowercase t hmem] at hk
  exact ⟨k, by simp only [target, hk]⟩

end Program
end RandomAccess

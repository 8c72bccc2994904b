import RandomAccess.Machine.Basic
import RandomAccess.Proofs.Except
import RandomAccess.Proofs.Machine.Abstract
import RandomAccess.Proofs.Program.Soundness
import RandomAccess.Proofs.Text.Lines

/-!
# Messages on one line

Why a source or a tape is refused, and why a run ended with a fault, is told on one line. What a message
quotes has no line feed in it: tags, numerals, words of a tape and lines of a source have none, and the
place where a line stops making sense is shown with its invisible characters spelled out.
-/

namespace RandomAccess

/-! ## What messages quote -/

theorem Inked.oneLine {s : String} (h : Inked s.toList) : OneLine s :=
  fun hn => absurd (h.2 _ hn) (by decide)

theorem oneLine_numeral (v : Int) : OneLine (Numeral.text v) := (inked_text v).oneLine

theorem oneLine_nat (n : Nat) : OneLine (toString n) := oneLine_numeral n

theorem IsTag.oneLine {t : String} (h : IsTag t) : OneLine t := h.inked.oneLine

namespace Text

variable {p : Char → Bool} {s w : List Char} {c : Char}

theorem newline_notMem_toDigits (b n : Nat) : '\n' ∉ Nat.toDigits b n := by
  have hcore (fuel : Nat) : ∀ n ds, '\n' ∉ ds → '\n' ∉ Nat.toDigitsCore b fuel n ds := by
    induction fuel with
    | zero => exact fun _ _ h => h
    | succ fuel ih =>
        intro n ds h
        have hds : '\n' ∉ (n % b).digitChar :: ds := by
          rw [List.mem_cons, not_or]
          exact ⟨(Nat.digitChar_ne '\n' (by decide)).symm, h⟩
        rw [Nat.toDigitsCore]
        split
        · exact hds
        · exact ih _ _ hds
  exact hcore _ n [] nofun

theorem newline_notMem_hexDigits (width n : Nat) : '\n' ∉ hexDigits width n := by
  rw [hexDigits, List.mem_append, not_or]
  exact ⟨fun h => absurd (List.eq_of_mem_replicate h) (by decide), newline_notMem_toDigits 16 n⟩

theorem newline_notMem_quoteChar {q : Char} (hq : q ≠ '\n') (c : Char) : '\n' ∉ quoteChar q c := by
  have hhex (x : Char) (hx : '\n' ≠ x) (width : Nat) : '\n' ∉ '\\' :: x :: hexDigits width c.toNat := by
    simp [hx, newline_notMem_hexDigits]
  by_cases hc : c = '\n'
  · subst hc
    simp [quoteChar, hq.symm]
  · unfold quoteChar
    repeat' split
    all_goals first | decide | exact hhex _ (by decide) _ | simp [Ne.symm hc]

theorem newline_notMem_quoted (s : List Char) : '\n' ∉ quoted s := by
  have hq : quoteMark s ≠ '\n' := by
    unfold quoteMark
    split <;> decide
  simp only [quoted, List.mem_append, List.mem_cons, List.mem_flatMap, List.not_mem_nil, or_false,
    not_or, not_exists, not_and]
  exact ⟨⟨hq.symm, fun c _ => newline_notMem_quoteChar hq c⟩, hq.symm⟩

/-- The pieces of a text have no separators in them. -/
theorem eq_false_of_mem_splitOnP (hw : w ∈ s.splitOnP p) (hc : c ∈ w) : p c = false := by
  induction s generalizing w with
  | nil =>
      rw [List.splitOnP_nil, List.mem_singleton] at hw
      subst hw
      cases hc
  | cons d s ih =>
      rw [List.splitOnP_cons_eq_if_modifyHead] at hw
      split at hw
      · rcases List.mem_cons.mp hw with rfl | hw
        · cases hc
        · exact ih hw hc
      · rename_i hd
        obtain ⟨first, rest, hs⟩ := List.exists_cons_of_ne_nil (List.splitOnP_ne_nil p s)
        rw [hs, List.modifyHead_cons] at hw
        rcases List.mem_cons.mp hw with rfl | hw
        · rcases List.mem_cons.mp hc with rfl | hc
          · simpa using hd
          · exact ih (w := first) (by simp [hs]) hc
        · exact ih (by simp [hs, hw]) hc

theorem newline_notMem_of_mem_lines {line : List Char} (h : line ∈ lines s) : '\n' ∉ line := by
  intro hn
  have hf := eq_false_of_mem_splitOnP h hn
  simp at hf

theorem newline_notMem_of_mem_words (h : w ∈ words s) : '\n' ∉ w := by
  intro hn
  have hf := eq_false_of_mem_splitOnP (List.mem_of_mem_filter h) hn
  revert hf
  decide

theorem newline_notMem_trim (h : '\n' ∉ s) : '\n' ∉ trim s := fun hn =>
  h (List.dropWhile_sublist _ |>.mem (mem_of_mem_trimEnd hn))

end Text

/-! ## Sources that are refused -/

theorem Source.Mismatch.newline_notMem_found (m : Source.Mismatch) : '\n' ∉ m.found := by
  unfold found
  split
  · split
    · decide
    · exact Text.newline_notMem_quoted _
  · exact Text.newline_notMem_quoted _

theorem Source.Mismatch.oneLine (m : Source.Mismatch) : OneLine m.message :=
  ((((OneLine.ofList (by decide)).append (.ofList m.newline_notMem_found)).next (by decide)
    (oneLine_nat _)).next (by decide) (oneLine_nat _)).next (by decide) (oneLine_nat _) |>.append
      (.ofList (by decide))

namespace Program

variable {lines : List (List Char)} {sts : List Source.Statement} {n : Nat} {s : List Char} {w l : String}
  {e : LoadError}

theorem isTag_waiting {before : Option String} (hs : List.Forall₂ Reads lines sts)
    (hb : ∀ l, before = some l → IsTag l) (hw : waiting before sts = some w) : IsTag w := by
  induction hs generalizing before with
  | nil => exact hb w hw
  | @cons line st lines sts hread _ ih =>
      cases st with
      | nothing => exact ih hb hw
      | label l =>
          refine ih ?_ hw
          rintro _ ⟨⟩
          exact isTag_of_read (reads_iff.mp hread)
      | instruction i => exact ih (by simp) hw

theorem isTag_mark {i : Instruction} (hs : List.Forall₂ Reads lines sts) (hread : Reads s (.instruction i))
    (hm : (i.withLabel (i.label.or (waiting none sts))).mark = some l) : IsTag l := by
  have hl : i.label.or (waiting none sts) = some l := (Option.filter_eq_some_iff.mp hm).1
  rcases Option.or_eq_some_iff.mp hl with h | ⟨-, h⟩
  · exact (sourced_of_read (reads_iff.mp hread)).label l h
  · exact isTag_waiting hs (by simp) h

theorem Offends.oneLine (h : Offends n sts s e) (hs : List.Forall₂ Reads lines sts) (hn : '\n' ∉ s) :
    OneLine e.message := by
  cases h with
  | overlong _ => exact ((OneLine.ofList (by decide)).append (oneLine_nat _)).append (.ofList (by decide))
  | malformed _ _ =>
      exact (((OneLine.ofList (by decide)).append (oneLine_nat n)).next (by decide)
        (.ofList (Text.newline_notMem_trim hn))).next (by decide) (Source.Mismatch.oneLine _)
  | labelWaiting _ hw =>
      exact (((OneLine.ofList (by decide)).append (oneLine_nat n)).next (by decide)
        (isTag_waiting hs (by simp) hw).oneLine).append (.ofList (by decide))
  | twoLabels hread hown hw =>
      have hi := sourced_of_read (reads_iff.mp hread)
      exact ((((OneLine.ofList (by decide)).append (oneLine_nat n)).next (by decide)
        (isTag_waiting hs (by simp) hw).oneLine).next (by decide) (hi.label _ hown).oneLine).append
          (.ofList (by decide))
  | duplicateLabel hread _ hm _ =>
      have ht := isTag_mark hs hread hm
      rw [ht.lower_eq]
      exact ((OneLine.ofList (by decide)).append ht.oneLine).append (.ofList (by decide))

/-- Whatever a source is refused for is told on one line. -/
theorem FirstOffence.oneLine (h : FirstOffence lines e) (hn : ∀ line ∈ lines, '\n' ∉ line) :
    OneLine e.message := by
  cases h with
  | line hlines hs _ ho => exact ho.oneLine hs (hn _ (by simp [hlines]))
  | danglingLabel hs _ hw =>
      exact ((OneLine.ofList (by decide)).append (isTag_waiting hs (by simp) hw).oneLine).append (.ofList (by decide))
  | @undefinedTag sts is js i t hs _ _ ha _ ho _ =>
      have hi : i.Sourced := sourced_attach (w := none) hs nofun i (by simp [ha])
      have ht : IsTag t := hi.operand _ ho
      exact ((OneLine.ofList (by decide)).append ht.oneLine).append (.ofList (by decide))

end Program

/-! ## Tapes that are refused -/

theorem InputTape.oneLine_of_ofText {s : List Char} {e : InvalidValue} (h : ofText s = .error e) :
    OneLine e.message := by
  rcases bind_eq_error_iff.mp h with hm | ⟨vs, -, hr⟩
  · obtain ⟨before, w, after, hws, -, hx⟩ := mapM_eq_error_iff.mp hm
    have hw : w ∈ Text.words s := by simp [hws]
    split at hx
    · cases hx
    · cases hx
      exact .append (.ofList (by decide)) (.ofList (Text.newline_notMem_of_mem_words hw))
  · cases hr

/-! ## Faults -/

theorem Fault.oneLine {f : Fault} (hl : f.kind ≠ .unknownLabel) (hr : f.kind ≠ .outputRefused) :
    OneLine f.message := by
  cases f with
  | unknownLabel l => exact absurd rfl hl
  | outputRefused reason => exact absurd rfl hr
  | outOfProgram index =>
      cases index with
      | none => exact .ofList (by decide)
      | some i => exact .append (.ofList (by decide)) (oneLine_numeral i)
  | illegalAddressing op mode =>
      have hop : OneLine op.title := by cases op <;> exact .ofList (by decide)
      have hmode : OneLine mode.name := by cases mode <;> exact .ofList (by decide)
      exact (hop.next (by decide) hmode).append (.ofList (by decide))
  | invalidIndex i => exact .append (.ofList (by decide)) (oneLine_numeral i)
  | inputExhausted n =>
      exact ((OneLine.ofList (by decide)).append (oneLine_nat n)).append (.ofList (by decide))
  | emptyProgram | accumulatorInput | accumulatorOutput | divisionByZero | limitReached =>
      exact .ofList (by decide)

theorem Result.oneLine {r : Result} (h : ∀ index f n, r = .faulted index f n →
    f.kind ≠ .unknownLabel ∧ f.kind ≠ .outputRefused) : OneLine r.text := by
  cases r with
  | halted n => exact .ofList (l := []) nofun
  | faulted index f n =>
      obtain ⟨hl, hr⟩ := h index f n rfl
      have hindex : OneLine (indexText index) := by
        cases index with
        | none => exact .ofList (by decide)
        | some i => exact oneLine_numeral i
      exact ((OneLine.ofList (by decide)).append hindex).next (by decide) (Fault.oneLine hl hr)

end RandomAccess

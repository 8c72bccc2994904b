import RandomAccess.Proofs.Source.Printing
import RandomAccess.Proofs.Tape.Reading
import RandomAccess.Proofs.Text.Lines
import RandomAccess.Session

/-!
# From one tape to the next

What an output tape sends to its sink is an input tape again, and so is the line with all values that a
session prints: both hold the numerals of the values as words, and a numeral is an entry with this value.
Texts may spell a number in many ways. Those that are accepted give numbers that can be written, and these
survive as well.
-/

namespace RandomAccess

/-! ## Values and entries -/

namespace Grammar.Entry

def row (e : Entry) : Digits Text.isDecimalDigit where
  text := figures e.groups
  ne_nil := by
    obtain ⟨g, groups, hg⟩ := List.exists_cons_of_ne_nil e.ne_nil
    simp [hg, figures, g.ne_nil]
  isDigit := isDecimalDigit_figures e.groups

theorem value_eq (e : Entry) : e.value = e.sign.apply e.row.value := rfl

theorem writable_value (e : Entry) : Numeral.writable e.value = true := by
  rw [value_eq]
  exact writable_digits e.row e.short e.sign

end Grammar.Entry

open Grammar (Entry)

variable {vs : List Int} {s : List Char}

theorem exists_entry {v : Int} (h : Numeral.writable v = true) :
    ∃ e : Entry, e.text = (Numeral.text v).toList ∧ e.value = v := by
  obtain ⟨g, d, ht, hv, hl⟩ := exists_integer h
  have hd : Grammar.figures [d] = d.text := by simp [Grammar.figures]
  let e : Entry := ⟨g, [d], nofun, by rwa [hd]⟩
  have hrow : e.row = d := Grammar.Digits.ext hd
  refine ⟨e, ?_, ?_⟩
  · rw [Entry.text, Grammar.joined_singleton, ht]
  · rw [e.value_eq, hrow]
    exact hv

theorem exists_entries (h : ∀ v ∈ vs, Numeral.writable v = true) :
    ∃ es : List Entry, es.map Entry.text = vs.map (fun v => (Numeral.text v).toList) ∧
      es.map Entry.value = vs := by
  induction vs with
  | nil => exact ⟨[], rfl, rfl⟩
  | cons v vs ih =>
      obtain ⟨hv, hvs⟩ := List.forall_mem_cons.mp h
      obtain ⟨e, he, hev⟩ := exists_entry hv
      obtain ⟨es, hes, hesv⟩ := ih hvs
      exact ⟨e :: es, by simp [he, hes], by simp [hev, hesv]⟩

theorem isWord_text (v : Int) : Text.IsWord (Numeral.text v).toList :=
  ⟨(inked_text v).1, fun c hc => isBlank_of_isInk ((inked_text v).2 c hc)⟩

/-- A text whose words are the numerals of the values is read as these values. -/
theorem InputTape.ofText_of_words (h : ∀ v ∈ vs, Numeral.writable v = true)
    (hs : Text.words s = vs.map fun v => (Numeral.text v).toList) : ofText s = .ok (ofList vs) := by
  obtain ⟨es, hes, hvs⟩ := exists_entries h
  rw [ofText_eq_ok_iff]
  exact ⟨es, hes.trans hs.symm, by rw [hvs]⟩

theorem InputTape.writable_of_ofText {t : InputTape} (h : ofText s = .ok t) :
    ∀ v ∈ t.values.toList, Numeral.writable v = true := by
  obtain ⟨es, -, rfl⟩ := ofText_eq_ok_iff.mp h
  intro v hv
  obtain ⟨e, -, rfl⟩ := List.mem_map.mp hv
  exact e.writable_value

/-! ## Lines in a sink -/

def Sink.receive (k : Sink) (text : String) : Sink := { k with content := k.content ++ text }

theorem Sink.receive_receive (k : Sink) (s t : String) : (k.receive s).receive t = k.receive (s ++ t) := by
  simp [receive, String.append_assoc]

namespace OutputTape

variable {t : OutputTape} {k : Sink} {v : Int}

theorem write_of_open (hs : t.sink = some k) (ho : k.closed = false) (hc : k.capacity = none)
    (hv : Numeral.writable v = true) :
    t.write v = (⟨t.values.push v, some (k.receive (line v))⟩, none) := by
  simp [write, hs, hv, Sink.write, ho, hc, Sink.receive]

/-- A sink that takes every line gets the lines of all values. -/
theorem writeAll_of_open (hs : t.sink = some k) (ho : k.closed = false) (hc : k.capacity = none)
    (hv : ∀ v ∈ vs, Numeral.writable v = true) :
    ∃ u, t.writeAll vs = (u, none) ∧ u.sink = some (k.receive (String.join (vs.map line))) := by
  induction vs generalizing t k with
  | nil => exact ⟨t, rfl, by simp [hs, Sink.receive]⟩
  | cons v vs ih =>
      obtain ⟨hfirst, hrest⟩ := List.forall_mem_cons.mp hv
      obtain ⟨u, hu, hk⟩ := ih (t := ⟨t.values.push v, some (k.receive (line v))⟩) rfl ho hc hrest
      rw [writeAll, write_of_open hs ho hc hfirst, List.map_cons, String.join_cons]
      exact ⟨u, hu, by rw [hk, Sink.receive_receive]⟩

theorem words_lines (vs : List Int) :
    Text.words (String.join (vs.map line)).toList = vs.map fun v => (Numeral.text v).toList := by
  have hlines : (String.join (vs.map line)).toList =
      (vs.map fun v => (Numeral.text v).toList).flatMap (· ++ ['\n']) := by
    simp [String.toList_join, List.flatMap_map, line]
  rw [hlines]
  refine Text.words_flatMap (by decide) ?_
  simpa using fun v _ => isWord_text v

end OutputTape

/-! ## All values on one line -/

namespace Session

theorem valuesLine_of_writable (hv : ∀ v ∈ vs, Numeral.writable v = true) :
    valuesLine vs = .ok (" ".intercalate (vs.map toString) ++ "\n") := by
  rw [valuesLine, if_pos (List.all_eq_true.mpr hv), Numeral.text_eq_toString]

theorem words_valuesLine (vs : List Int) :
    Text.words (" ".intercalate (vs.map toString) ++ "\n").toList =
      vs.map fun v => (Numeral.text v).toList := by
  rw [← Numeral.text_eq_toString, String.toList_append, String.toList_intercalate, List.map_map]
  refine Text.words_intercalate (by decide) (by decide) ?_
  simpa using fun v _ => isWord_text v

end Session

/-! ## Both ways -/

/-- The values can be written to any sink that takes every line, and they can be printed on one line; both
texts have the values in decimal and are read as these values. -/
structure Survive (vs : List Int) : Prop where
  lines : ∀ k : Sink, k.content = "" → k.closed = false → k.capacity = none →
    ∃ t k', ({ sink := some k } : OutputTape).writeAll vs = (t, none) ∧ t.sink = some k' ∧
      k'.content = Text.unlines (vs.map toString) ∧
      InputTape.ofText k'.content.toList = .ok (.ofList vs)
  line : ∃ l, Session.valuesLine vs = .ok l ∧ l = " ".intercalate (vs.map toString) ++ "\n" ∧
    InputTape.ofText l.toList = .ok (.ofList vs)

theorem survive_of_writable (hv : ∀ v ∈ vs, Numeral.writable v = true) : Survive vs where
  lines k hk ho hc := by
    obtain ⟨t, ht, hs⟩ := OutputTape.writeAll_of_open (t := { sink := some k }) rfl ho hc hv
    refine ⟨t, _, ht, hs, ?_, InputTape.ofText_of_words hv ?_⟩
    · rw [Sink.receive, hk, String.empty_append, OutputTape.join_line]
    · rw [Sink.receive, hk, String.empty_append]
      exact OutputTape.words_lines vs
  line :=
    ⟨_, Session.valuesLine_of_writable hv, rfl,
      InputTape.ofText_of_words hv (Session.words_valuesLine vs)⟩

/-- Numbers of at most as many digits as a numeral may have survive, and so do the values of every text that
is accepted. -/
theorem rendered_values_survive :
    (∀ vs : List Int, (∀ v ∈ vs, (Nat.toDigits 10 v.natAbs).length ≤ digitLimit) → Survive vs) ∧
    ∀ s t, InputTape.ofText s = .ok t → Survive t.values.toList := by
  refine ⟨fun vs hv => survive_of_writable fun v hm => ?_, fun s t h => ?_⟩
  · exact Numeral.writable_iff.mpr (Numeral.length_toDigits_le_iff.mp (hv v hm))
  · exact survive_of_writable (InputTape.writable_of_ofText h)

theorem rendered_values_survive_signs : Survive [0, -17, 10000000000000000000000] ∧ Survive [10, 3, -7] :=
  ⟨rendered_values_survive.1 _ (by decide),
    rendered_values_survive.2 "\t+1_0 \u0663\n-007 ".toList (.ofList [10, 3, -7]) (by decide)⟩

end RandomAccess

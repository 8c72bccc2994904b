import RandomAccess.Proofs.Text.Span

/-!
# Words of a text

The words of a text are its maximal runs of characters that are not blank. Every text is spaced out as
words in one way, and these are the ones that cutting it at its blanks gives.
-/

namespace RandomAccess.Text

/-- At least one character, and none that is blank. -/
structure IsWord (w : List Char) : Prop where
  ne_nil : w ≠ []
  not_isBlank : ∀ c ∈ w, isBlank c = false

/-- The text is made of these words, in order, and of blanks around them. A word goes as far as it can:
it is followed by a blank or by the end of the text. -/
inductive Spaced : List Char → List (List Char) → Prop where
  | nil : Spaced [] []
  | blank {c : Char} {s : List Char} {ws : List (List Char)} (hc : isBlank c = true) (h : Spaced s ws) :
      Spaced (c :: s) ws
  | word {w s : List Char} {ws : List (List Char)} (hw : IsWord w) (hs : Ends (!isBlank ·) s)
      (h : Spaced s ws) : Spaced (w ++ s) (w :: ws)

variable {c : Char} {s w : List Char} {ws : List (List Char)}

theorem exists_spaced : (s : List Char) → ∃ ws, Spaced s ws
  | [] => ⟨[], .nil⟩
  | c :: s => by
      cases hc : isBlank c with
      | true =>
          obtain ⟨ws, h⟩ := exists_spaced s
          exact ⟨ws, .blank hc h⟩
      | false =>
          obtain ⟨ws, h⟩ := exists_spaced (s.dropWhile (!isBlank ·))
          have hw : IsWord (c :: s.takeWhile (!isBlank ·)) := by
            refine ⟨nofun, fun d hd => ?_⟩
            rcases List.mem_cons.mp hd with rfl | hd
            · exact hc
            · simpa using mem_takeWhile hd
          have hs := Spaced.word hw (ends_dropWhile _ s) h
          rw [List.cons_append, List.takeWhile_append_dropWhile] at hs
          exact ⟨_, hs⟩
termination_by s => s.length
decreasing_by
  · exact Nat.lt_succ_of_le (List.dropWhile_sublist _).length_le
  · exact Nat.lt_succ_self s.length

/-! ## Cutting at blanks -/

@[simp] theorem words_nil : words [] = [] := by simp [words, List.splitOnP_nil]

/-- A blank belongs to no word and keeps two words apart. -/
theorem words_append_blank (hc : isBlank c = true) (s t : List Char) :
    words (s ++ c :: t) = words s ++ words t := by
  rw [words, List.splitOnP_append_cons s t hc, List.filter_append, words, words]

@[simp] theorem words_cons_blank (hc : isBlank c = true) (s : List Char) : words (c :: s) = words s := by
  simpa using words_append_blank hc [] s

theorem IsWord.words_eq (hw : IsWord w) : words w = [w] := by
  rw [words, List.splitOnP_eq_singleton hw.not_isBlank]
  simp [hw.ne_nil]

theorem IsWord.words_blank (hw : IsWord w) (hc : isBlank c = true) (s : List Char) :
    words (w ++ c :: s) = w :: words s := by
  rw [words_append_blank hc, hw.words_eq, List.singleton_append]

theorem Spaced.words_eq (h : Spaced s ws) : words s = ws := by
  induction h with
  | nil => exact words_nil
  | blank hc _ ih => rw [words_cons_blank hc, ih]
  | @word w s ws hw hs _ ih =>
      cases s with
      | nil => rw [List.append_nil, hw.words_eq, ← ih, words_nil]
      | cons c s =>
          have hc : isBlank c = true := by simpa using hs.head
          rw [hw.words_blank hc, ← ih, words_cons_blank hc]

theorem spaced_iff : Spaced s ws ↔ ws = words s := by
  obtain ⟨us, h⟩ := exists_spaced s
  constructor
  · intro hs
    exact hs.words_eq.symm
  · rintro rfl
    rwa [h.words_eq]

/-! ## Texts made of words -/

theorem words_flatMap (hc : isBlank c = true) (hw : ∀ w ∈ ws, IsWord w) :
    words (ws.flatMap (· ++ [c])) = ws := by
  induction ws with
  | nil => exact words_nil
  | cons w ws ih =>
      obtain ⟨hfirst, hrest⟩ := List.forall_mem_cons.mp hw
      rw [List.flatMap_cons, List.append_assoc, List.singleton_append, hfirst.words_blank hc, ih hrest]

theorem words_intercalate {d : Char} (hc : isBlank c = true) (hd : isBlank d = true)
    (hw : ∀ w ∈ ws, IsWord w) : words ([c].intercalate ws ++ [d]) = ws := by
  induction ws with
  | nil => simp [List.intercalate, words_cons_blank hd]
  | cons w ws ih =>
      obtain ⟨hfirst, hrest⟩ := List.forall_mem_cons.mp hw
      cases ws with
      | nil => rw [List.intercalate_singleton, hfirst.words_blank hd, words_nil]
      | cons u ws =>
          rw [List.intercalate_cons_cons, List.append_assoc, List.append_assoc, List.singleton_append,
            hfirst.words_blank hc, ih hrest]

end RandomAccess.Text

import RandomAccess.Proofs.Machine.Effect

/-!
# Registers recall what was written

Beside the registers runs a journal of the writes since the last reset. Whatever is asked of the registers,
each of them holds the last value that the journal has for it, or zero. So the array behind the registers
and the mark of the registers in use do not show.
-/

namespace RandomAccess.Registers

/-! ## Requests -/

/-- What can be asked of registers. -/
inductive Request where
  | get (i : Int)
  | set (i v : Int)
  /-- Sets the accumulator. -/
  | setAcc (v : Int)
  | update (op : Arithmetic) (i v : Int)
  | window (count : Int)
  | text
  | reset

inductive Reply where
  | value (v : Int)
  | values (vs : List Int)
  | text (s : String)
  | done

/-- The outcome of a write; a write that fails leaves the registers as they are. -/
def written (r : Registers) : Except Failure Registers → Registers × Except Failure Reply
  | .ok r' => (r', .ok .done)
  | .error x => (r, .error x)

namespace Request

/-- The registers after a request, and its reply. -/
def run (r : Registers) : Request → Registers × Except Failure Reply
  | get i => (r, (r.get i).map .value)
  | set i v => r.written (r.set i v)
  | setAcc v => r.written (r.set 0 v)
  | update op i v => r.written (r.update op i v)
  | window count => (r, .ok (.values (r.window count)))
  | text => (r, (r.text.mapError .digitLimit).map .text)
  | reset => ({}, .ok .done)

/-- The request only looks at the registers. -/
def Looks : Request → Prop
  | get _ | window _ | text => True
  | _ => False

/-- The index that the request names. -/
def index? : Request → Option Int
  | get i | set i _ | update _ i _ => some i
  | setAcc _ => some 0
  | _ => none

/-- The request is to divide by zero. -/
def DividesByZero : Request → Prop
  | update op _ v => op = .div ∧ v = 0
  | _ => False

end Request

/-- The registers after requests to new ones. -/
def serve (requests : List Request) : Registers := requests.foldl (fun r q => (q.run r).1) {}

/-! ## The journal -/

/-- The writes since the last reset, the last one first. -/
abbrev Journal := List (Nat × Int)

namespace Journal

/-- The last value written to a register, or zero. -/
def latest (j : Journal) (i : Nat) : Int := (j.lookup i).getD 0

/-- The write that a request makes. With a negative index or a zero divisor it makes none. -/
def write? (j : Journal) : Request → Option (Nat × Int)
  | .set i v => if i < 0 then none else some (i.toNat, v)
  | .setAcc v => some (0, v)
  | .update op i v =>
    if i < 0 ∨ op = .div ∧ v = 0 then none
    else some (i.toNat, match op with
      | .assign => v
      | .add => j.latest i.toNat + v
      | .sub => j.latest i.toNat - v
      | .mul => j.latest i.toNat * v
      | .div => (j.latest i.toNat).tdiv v)
  | _ => none

/-- The journal after a request. -/
def enter (j : Journal) (q : Request) : Journal :=
  match q with
  | .reset => []
  | q => (j.write? q).toList ++ j

/-- The journal of requests to new registers. -/
def ofRequests (requests : List Request) : Journal := requests.foldl enter []

theorem latest_cons (j : Journal) (k i : Nat) (v : Int) :
    latest ((k, v) :: j) i = if k = i then v else j.latest i := by
  by_cases h : k = i
  · simp [latest, h]
  · simp [latest, List.lookup_cons, h, beq_eq_false_iff_ne.mpr (Ne.symm h)]

end Journal

/-! ## One request -/

variable {r : Registers} {j : Journal} {q : Request} {i v : Int}

/-- The registers hold what the journal recalls, and nothing where none is in use. -/
structure Keeps (r : Registers) (j : Journal) : Prop where
  cell : ∀ n, r.cell n = j.latest n
  unused : ∀ n, r.used ≤ n → r.cell n = 0

theorem Keeps.empty : Keeps {} [] where
  cell n := by simp [Registers.cell, Journal.latest]
  unused n _ := by simp [Registers.cell]

theorem Keeps.put (h : r.Keeps j) (k : Nat) (v : Int) : (r.put k v).Keeps ((k, v) :: j) where
  cell n := by rw [cell_put, Journal.latest_cons, h.cell]
  unused n hn := by
    have hmax : max r.used (k + 1) ≤ n := hn
    have hne : k ≠ n := by omega
    rw [cell_put, if_neg hne]
    exact h.unused n (by omega)

theorem set_of_neg (r : Registers) (hi : i < 0) (v : Int) :
    r.set i v = .error (.ofFault (.invalidIndex i)) := by
  rw [set, index_neg hi]
  rfl

theorem set_of_nonneg (r : Registers) (hi : ¬ i < 0) (v : Int) : r.set i v = .ok (r.put i.toNat v) := by
  rw [set, index, if_neg hi]
  rfl

theorem update_eq (r : Registers) {op : Arithmetic} (hz : ¬ (op = .div ∧ v = 0)) (i : Int) :
    r.update op i v = (index i).map fun k => r.put k (op.apply (r.cell k) v) := by
  simp only [update, Arithmetic.check, if_neg hz, bind, Except.bind]
  cases index i <;> rfl

theorem run_of_zero_divisor (r : Registers) (hq : q.DividesByZero) :
    q.run r = (r, .error (.fault .divisionByZero)) := by
  cases q with
  | update op k v =>
      obtain ⟨rfl, rfl⟩ := hq
      rfl
  | _ => exact hq.elim

theorem run_of_neg (r : Registers) (hq : q.index? = some i) (hi : i < 0) (hz : ¬ q.DividesByZero) :
    q.run r = (r, .error (.ofFault (.invalidIndex i))) := by
  cases q with
  | window | text | reset => cases hq
  | setAcc v =>
      cases hq
      exact absurd hi (Int.lt_irrefl 0)
  | get k =>
      cases hq
      rw [Request.run, get_neg r hi]
      rfl
  | set k v =>
      cases hq
      rw [Request.run, set_of_neg r hi]
      rfl
  | update op k v =>
      cases hq
      rw [Request.run, update_eq r hz, index_neg hi]
      rfl

/-- A request makes the write that the journal foresees and is done, or it changes nothing. -/
theorem run_cases (h : r.Keeps j) (hq : q ≠ .reset) :
    (∃ k v, j.write? q = some (k, v) ∧ q.run r = (r.put k v, .ok .done)) ∨
      j.write? q = none ∧ (q.run r).1 = r ∧ (q.run r).2 ≠ .ok .done := by
  cases q with
  | reset => exact absurd rfl hq
  | window count => exact Or.inr ⟨rfl, rfl, nofun⟩
  | get i =>
      refine Or.inr ⟨rfl, rfl, ?_⟩
      simp only [Request.run]
      cases r.get i <;> simp [Except.map]
  | text =>
      refine Or.inr ⟨rfl, rfl, ?_⟩
      simp only [Request.run]
      cases r.text <;> simp [Except.map, Except.mapError]
  | setAcc v => exact Or.inl ⟨0, v, rfl, rfl⟩
  | set i v =>
      by_cases hi : i < 0
      · refine Or.inr ⟨if_pos hi, ?_⟩
        rw [run_of_neg (q := .set i v) r rfl hi not_false]
        exact ⟨rfl, nofun⟩
      · refine Or.inl ⟨i.toNat, v, if_neg hi, ?_⟩
        rw [Request.run, set_of_nonneg r hi]
        rfl
  | update op i v =>
      by_cases hz : Request.DividesByZero (.update op i v)
      · refine Or.inr ⟨if_pos (Or.inr hz), ?_⟩
        rw [run_of_zero_divisor r hz]
        exact ⟨rfl, nofun⟩
      by_cases hi : i < 0
      · refine Or.inr ⟨if_pos (Or.inl hi), ?_⟩
        rw [run_of_neg r rfl hi hz]
        exact ⟨rfl, nofun⟩
      · refine Or.inl ⟨i.toNat, op.apply (j.latest i.toNat) v, ?_, ?_⟩
        · refine (if_neg (not_or.mpr ⟨hi, hz⟩)).trans ?_
          cases op with
          | div => rw [Arithmetic.apply, quotient_eq_tdiv]
          | _ => rfl
        · rw [Request.run, update_eq r hz, index, if_neg hi, ← h.cell]
          rfl

theorem Journal.enter_eq (j : Journal) (hq : q ≠ .reset) : j.enter q = (j.write? q).toList ++ j := by
  cases q with
  | reset => exact absurd rfl hq
  | _ => rfl

/-- What one request keeps. -/
theorem Keeps.run (h : r.Keeps j) (q : Request) : (q.run r).1.Keeps (j.enter q) := by
  by_cases hq : q = .reset
  · subst hq
    exact .empty
  · rw [j.enter_eq hq]
    rcases run_cases h hq with ⟨k, v, hw, hrun⟩ | ⟨hw, hrun, -⟩
    · rw [hw, hrun]
      exact h.put k v
    · rw [hw, hrun]
      exact h

theorem Keeps.foldl (h : r.Keeps j) (requests : List Request) :
    (requests.foldl (fun r q => (q.run r).1) r).Keeps (requests.foldl Journal.enter j) := by
  induction requests generalizing r j with
  | nil => exact h
  | cons q requests ih => exact ih (h.run q)

theorem keeps_serve (requests : List Request) : (serve requests).Keeps (.ofRequests requests) :=
  Keeps.empty.foldl requests

/-! ## Replies -/

theorem Keeps.window_eq (h : r.Keeps j) (count : Int) :
    r.window count = (List.range count.toNat).map j.latest := by
  rw [window, funext h.cell]

/-- The registers that are not zero, in order. -/
theorem Keeps.exists_occupied (h : r.Keeps j) :
    ∃ is : List Nat, is.Pairwise (· < ·) ∧ (∀ n, n ∈ is ↔ j.latest n ≠ 0) ∧
      r.occupied = is.map fun n => (n, j.latest n) := by
  refine ⟨(List.range r.used).filter (r.cell · ≠ 0), List.pairwise_lt_range.filter _, fun n => ?_, ?_⟩
  · rw [List.mem_filter, List.mem_range, decide_eq_true_iff, ← h.cell]
    refine ⟨And.right, fun hn => ⟨?_, hn⟩⟩
    by_contra hlt
    exact hn (h.unused n (Nat.not_lt.mp hlt))
  · rw [← funext h.cell, occupied, List.filter_map]
    rfl

theorem text_eq {is : List Nat} (ho : r.occupied = is.map fun n => (n, j.latest n))
    (hw : ∀ n ∈ is, Numeral.writable (j.latest n) = true) :
    r.text = .ok ("RegisterFile(" ++ ", ".intercalate (is.map fun n =>
      "R" ++ toString n ++ "=" ++ Numeral.text (j.latest n)) ++ ")") := by
  have hall : (r.occupied.all fun e => Numeral.writable e.2) = true := by
    simpa [ho] using hw
  rw [text, if_pos hall, ho, List.map_map]
  rfl

/-- The registers are the map that the journal tells of. -/
structure Faithful (r : Registers) (j : Journal) : Prop where
  /-- The entries of the journal are the writes that are done. -/
  entry : ∀ q : Request, q ≠ .reset → (j.write? q ≠ none ↔ (q.run r).2 = .ok .done)
  get : ∀ n : Nat, r.get n = .ok (j.latest n)
  window : ∀ count : Int, r.window count = (List.range count.toNat).map j.latest
  /-- The text shows the registers that are not zero, in order. -/
  text : ∃ is : List Nat, is.Pairwise (· < ·) ∧ (∀ n, n ∈ is ↔ j.latest n ≠ 0) ∧
    ((∀ n ∈ is, Numeral.writable (j.latest n) = true) →
      r.text = .ok ("RegisterFile(" ++ ", ".intercalate (is.map fun n =>
        "R" ++ toString n ++ "=" ++ Numeral.text (j.latest n)) ++ ")"))
  looks : ∀ q : Request, q.Looks → (q.run r).1 = r
  zeroDivisor : ∀ q : Request, q.DividesByZero → q.run r = (r, .error (.fault .divisionByZero))
  invalidIndex : ∀ (q : Request) (i : Int), q.index? = some i → i < 0 → Numeral.writable i = true →
    ¬ q.DividesByZero → q.run r = (r, .error (.fault (.invalidIndex i)))

theorem Keeps.entry_iff (h : r.Keeps j) (hq : q ≠ .reset) :
    j.write? q ≠ none ↔ (q.run r).2 = .ok .done := by
  rcases run_cases h hq with ⟨k, v, hw, hrun⟩ | ⟨hw, -, hrun⟩
  · simp [hw, hrun]
  · simp [hw, hrun]

theorem run_of_looks (r : Registers) (hq : q.Looks) : (q.run r).1 = r := by
  cases q with
  | get | window | text => rfl
  | _ => exact hq.elim

/-- Whatever is asked of new registers, in whatever order and whether or not it fails, they hold the values
of the last writes since the last reset and zeros. Looking at them changes nothing, and a request with a
negative index or a zero divisor is refused and changes nothing either. -/
theorem serve_faithful (requests : List Request) : (serve requests).Faithful (.ofRequests requests) := by
  have h := keeps_serve requests
  obtain ⟨is, hsorted, hmem, ho⟩ := h.exists_occupied
  refine ⟨fun q => h.entry_iff, ?_, h.window_eq, ⟨is, hsorted, hmem, text_eq ho⟩,
    fun q => run_of_looks _, fun q => run_of_zero_divisor _, ?_⟩
  · intro n
    rw [get_natCast, h.cell]
  · intro q i hq hi hw hz
    have hx : Failure.ofFault (.invalidIndex i) = .fault (.invalidIndex i) := if_pos hw
    rw [run_of_neg _ hq hi hz, hx]

/-- Writes out of order, one of them refused, and a division by zero. -/
example : (serve [.set 9 4, .set (-1) 7, .setAcc 5, .update .mul 9 (-3), .update .div 9 0]).text =
    .ok "RegisterFile(R0=5, R9=-12)" := by decide +kernel

end RandomAccess.Registers

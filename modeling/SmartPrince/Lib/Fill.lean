import Mathlib.Data.Set.Insert
import Mathlib.Logic.Function.Basic
import SmartPrince.Lib.Loop

/-! # Buffers filled row by row

Of a block of memory whose bytes are not known yet one only has those that were
stored: a partial function of the index. Rows of one length, each from a start
of its own, are stored one sample after the other. -/
namespace SmartPrince.Lib.Fill
open SmartPrince.Lib.Loop

variable {α : Type*} {p : Nat → Option α} {S : Set Nat} {start : Nat → Nat} {len n m i : Nat}

/-- `p[i] = v` -/
def put (p : Nat → Option α) (i : Nat) (v : α) : Nat → Option α := Function.update p i (some v)

/-- The indices stored are those of `S`. -/
def Filled (S : Set Nat) (p : Nat → Option α) : Prop := ∀ i, (p i).isSome ↔ i ∈ S

theorem filled_none : Filled ∅ fun _ => (none : Option α) := fun _ => by simp

theorem Filled.put (h : Filled S p) (i : Nat) (v : α) : Filled (insert i S) (put p i v) := by
  intro j
  by_cases hj : j = i
  · simp [Fill.put, hj]
  · simp [Fill.put, hj, h j]

/-- The first `n` rows and `m` samples of the next. -/
def rows (start : Nat → Nat) (len n m : Nat) : Set Nat :=
  {i | ∃ r x, (r < n ∧ x < len ∨ r = n ∧ x < m) ∧ i = start r + x}

theorem rows_zero : rows start len 0 0 = ∅ := by
  ext i
  simp [rows]

theorem mem_rows : i ∈ rows start len n 0 ↔ ∃ r x, r < n ∧ x < len ∧ i = start r + x := by
  simp [rows, and_assoc]

/-- One sample more. -/
theorem rows_sample : rows start len n (m + 1) = insert (start n + m) (rows start len n m) := by
  ext i
  constructor
  · rintro ⟨r, x, ⟨hr, hx⟩ | ⟨rfl, hx⟩, rfl⟩
    · exact .inr ⟨r, x, .inl ⟨hr, hx⟩, rfl⟩
    · rcases Nat.lt_succ_iff_lt_or_eq.mp hx with hx | rfl
      · exact .inr ⟨r, x, .inr ⟨rfl, hx⟩, rfl⟩
      · exact .inl rfl
  · rintro (rfl | ⟨r, x, ⟨hr, hx⟩ | ⟨rfl, hx⟩, rfl⟩)
    · exact ⟨n, m, .inr ⟨rfl, Nat.lt_succ_self m⟩, rfl⟩
    · exact ⟨r, x, .inl ⟨hr, hx⟩, rfl⟩
    · exact ⟨r, x, .inr ⟨rfl, Nat.lt_succ_of_lt hx⟩, rfl⟩

/-- A row that is complete. -/
theorem rows_row : rows start len n len = rows start len (n + 1) 0 := by
  ext i
  rw [mem_rows]
  constructor
  · rintro ⟨r, x, ⟨hr, hx⟩ | ⟨rfl, hx⟩, rfl⟩
    · exact ⟨r, x, Nat.lt_succ_of_lt hr, hx, rfl⟩
    · exact ⟨r, x, Nat.lt_succ_self r, hx, rfl⟩
  · rintro ⟨r, x, hr, hx, rfl⟩
    rcases Nat.lt_succ_iff_lt_or_eq.mp hr with hr | rfl
    · exact ⟨r, x, .inl ⟨hr, hx⟩, rfl⟩
    · exact ⟨r, x, .inr ⟨rfl, hx⟩, rfl⟩

theorem Filled.sample (h : Filled (rows start len n m) p) (v : α) :
    Filled (rows start len n (m + 1)) (Fill.put p (start n + m) v) := by
  rw [rows_sample]
  exact h.put _ v

/-- Values stored one after the other. -/
theorem loop_put (start len : Nat) (f : Nat → α) (p : Nat → Option α) (i : Nat) :
    loop len (fun x p => put p (start + x) (f x)) p i =
      if start ≤ i ∧ i < start + len then some (f (i - start)) else p i := by
  induction len with
  | zero => rw [loop_zero, if_neg (by omega)]
  | succ len ih =>
    rw [loop_succ, put]
    by_cases hi : i = start + len
    · rw [hi, Function.update_self, if_pos (by omega), Nat.add_sub_cancel_left]
    · rw [Function.update_of_ne hi, ih]
      by_cases hin : start ≤ i ∧ i < start + len
      · rw [if_pos hin, if_pos (by omega)]
      · rw [if_neg hin, if_neg (by omega)]

/-! ## What is stored -/

/-- The indices of `S` hold what `f` has there, and the others nothing. -/
structure Holds (S : Set Nat) (f : Nat → α) (p : Nat → Option α) : Prop where
  inside : ∀ i ∈ S, p i = some (f i)
  outside : ∀ i, i ∉ S → p i = none

section Holds
variable {S T : Set Nat} {f : Nat → α} {v : α}

theorem holds_none : Holds ∅ f fun _ => none :=
  ⟨fun _ hi => hi.elim, fun _ _ => rfl⟩

theorem Holds.put (h : Holds S f p) (hv : v = f i) : Holds (insert i S) f (put p i v) := by
  refine ⟨fun j hj => ?_, fun j hj => ?_⟩
  · by_cases hji : j = i
    · rw [hji, hv]
      exact Function.update_self ..
    · exact (Function.update_of_ne hji ..).trans (h.inside j (hj.resolve_left hji))
  · rw [Set.mem_insert_iff, not_or] at hj
    exact (Function.update_of_ne hj.1 ..).trans (h.outside j hj.2)

/-- A row more, stored sample by sample. -/
theorem Holds.row {row : Nat → α} (h : Holds (T ∪ rows start len n 0) f p)
    (hrow : ∀ x, x < len → row x = f (start n + x)) :
    Holds (T ∪ rows start len (n + 1) 0) f (loop len (fun x p => Fill.put p (start n + x) (row x)) p) := by
  rw [← rows_row]
  refine loop_inv (fun x p => Holds (T ∪ rows start len n x) f p) h fun x p hx hp => ?_
  rw [rows_sample, Set.union_insert]
  exact hp.put (hrow x hx)

end Holds

end SmartPrince.Lib.Fill

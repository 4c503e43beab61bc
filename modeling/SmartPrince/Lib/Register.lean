import Mathlib.Algebra.GroupWithZero.Nat

/-! # The bits of a register

A program that sets one bit of a register at a time is followed bit by bit:
the bit it meant has the new value, every other bit the old one. -/
namespace SmartPrince.Lib.Register

variable {w : Nat}

/-- `old |= 1 << bit`, or `old &= ~(1 << bit)`. -/
def withBit (old : BitVec w) (bit : Nat) (on : Bool) : BitVec w :=
  if on then old ||| 1#w <<< bit else old &&& ~~~(1#w <<< bit)

@[simp] theorem getLsbD_withBit (old : BitVec w) (on : Bool) {bit j : Nat} (h : bit < w) :
    (withBit old bit on).getLsbD j = if j = bit then on else old.getLsbD j := by
  unfold withBit
  by_cases hj : j < w
  · by_cases hjb : j = bit
    · subst hjb
      cases on <;> simp [hj]
    · have hne : ¬ (bit ≤ j ∧ j - bit = 0) := fun ⟨hle, hsub⟩ => hjb (by omega)
      cases on <;> simp [hj, hjb] <;> omega
  · have hjb : j ≠ bit := fun he => hj (he ▸ h)
    rw [if_neg hjb, BitVec.getLsbD_of_ge _ _ (Nat.le_of_not_lt hj),
      BitVec.getLsbD_of_ge _ _ (Nat.le_of_not_lt hj)]

/-- A register that is narrower than the word it is kept in. -/
theorem setWidth_withBit {v : Nat} (hv : v ≤ w) (old : BitVec w) (on : Bool) {bit : Nat} (h : bit < v) :
    (withBit old bit on).setWidth v = withBit (old.setWidth v) bit on := by
  ext j hj
  rw [BitVec.getElem_eq_testBit_toNat, BitVec.getElem_eq_testBit_toNat, ← BitVec.getLsbD, ← BitVec.getLsbD,
    BitVec.getLsbD_setWidth, getLsbD_withBit _ _ (by omega), getLsbD_withBit _ _ h,
    BitVec.getLsbD_setWidth]
  simp [hj]

/-- A word masked with one bit -/
theorem and_bit_eq_zero (word : BitVec w) {k : Nat} (hk : k < w) :
    word &&& 1#w <<< k = 0 ↔ word.getLsbD k = false := by
  constructor
  · intro h
    have hbit := congrArg (fun w : BitVec _ => w.getLsbD k) h
    simpa [hk] using hbit
  · intro h
    ext i hi
    by_cases hik : i = k
    · subst hik
      rw [BitVec.getLsbD_eq_getElem hk] at h
      simp [h]
    · have hne : ¬ (k ≤ i ∧ i - k = 0) := fun hle => hik (by omega)
      simp
      omega

/-! ## Fields -/

/-- `k` ones. -/
def ones (k : Nat) : BitVec w := BitVec.ofNat w (2 ^ k - 1)

theorem getLsbD_ones (k i : Nat) : (ones k : BitVec w).getLsbD i = (decide (i < w) && decide (i < k)) := by
  rw [ones, BitVec.getLsbD_ofNat, Nat.testBit_two_pow_sub_one]

/-- `(word >> shift) & (2 ^ k - 1)` -/
def field (word : BitVec w) (shift k : Nat) : BitVec w := word >>> shift &&& ones k

/-- `(word & ~((2 ^ k - 1) << shift)) | ((v & (2 ^ k - 1)) << shift)` -/
def setField (word : BitVec w) (shift k : Nat) (v : BitVec w) : BitVec w :=
  word &&& ~~~(ones k <<< shift) ||| (v &&& ones k) <<< shift

theorem getLsbD_field (word : BitVec w) (shift k i : Nat) :
    (field word shift k).getLsbD i = (decide (i < k) && word.getLsbD (shift + i)) := by
  rw [field, BitVec.getLsbD_and, BitVec.getLsbD_ushiftRight, getLsbD_ones]
  by_cases hi : i < w
  · simp [hi, Bool.and_comm]
  · simp [hi, BitVec.getLsbD_of_ge word (shift + i) (by omega)]

theorem getLsbD_setField (word v : BitVec w) {shift k j : Nat} (hj : j < w) :
    (setField word shift k v).getLsbD j =
      if shift ≤ j ∧ j < shift + k then v.getLsbD (j - shift) else word.getLsbD j := by
  rw [setField, BitVec.getLsbD_or, BitVec.getLsbD_and, BitVec.getLsbD_not, BitVec.getLsbD_shiftLeft,
    BitVec.getLsbD_shiftLeft, BitVec.getLsbD_and, getLsbD_ones]
  by_cases hlo : shift ≤ j
  · have hsub : j - shift < w := by omega
    by_cases hhi : j - shift < k
    · rw [if_pos ⟨hlo, by omega⟩]
      simp [hj, hsub, hhi, Nat.not_lt.mpr hlo]
    · rw [if_neg fun h => hhi (by omega)]
      simp [hj, hsub, hhi]
  · rw [if_neg fun h => hlo h.1]
    simp [hj, Nat.lt_of_not_le hlo]

theorem field_setField (word v : BitVec w) {shift k : Nat} (h : shift + k ≤ w) :
    field (setField word shift k v) shift k = v &&& ones k := by
  ext i hi
  rw [← BitVec.getLsbD_eq_getElem, ← BitVec.getLsbD_eq_getElem, getLsbD_field, BitVec.getLsbD_and,
    getLsbD_ones]
  by_cases hk : i < k
  · rw [getLsbD_setField _ _ (by omega), if_pos ⟨by omega, by omega⟩]
    simp [hi, hk]
  · simp [hk]

/-- The fields beside the one that is set stay. -/
theorem field_setField_apart (word v : BitVec w) {shift other k : Nat}
    (hother : other + k ≤ w) (hapart : shift + k ≤ other ∨ other + k ≤ shift) :
    field (setField word shift k v) other k = field word other k := by
  ext i hi
  rw [← BitVec.getLsbD_eq_getElem, ← BitVec.getLsbD_eq_getElem, getLsbD_field, getLsbD_field]
  by_cases hk : i < k
  · rw [getLsbD_setField _ _ (by omega), if_neg (by omega)]
  · simp [hk]

/-! ## Words made bit by bit -/

/-- The word of the first `n` bits of `f`. -/
def gather (f : Nat → Bool) : Nat → BitVec w
  | 0 => 0
  | n + 1 => withBit (gather f n) n (f n)

theorem getLsbD_gather (f : Nat → Bool) {n : Nat} (h : n ≤ w) (j : Nat) :
    (gather f n : BitVec w).getLsbD j = (decide (j < n) && f j) := by
  induction n with
  | zero => simp [gather]
  | succ n ih =>
    rw [gather, getLsbD_withBit _ _ h, ih (Nat.le_of_succ_le h)]
    by_cases hj : j = n
    · subst hj
      simp
    · have hlt : j < n + 1 ↔ j < n := by omega
      rw [if_neg hj, decide_eq_decide.mpr hlt]

end SmartPrince.Lib.Register

import Mathlib.Data.List.Basic
import Mathlib.Tactic.IntervalCases

/-! # Bit streams, most significant bit first

A decoder of a variable-length code looks at eight bits of the stream at a
time, through a window of two bytes shifted to the bit position. Whatever
codeword starts at that position starts the window. -/
namespace SmartPrince.Lib.Bits

/-- Bit `j` of a byte, counted from the most significant one. -/
def bitAt (b : UInt8) (j : Nat) : Bool := b.toNat.testBit (7 - j)

def byteBits (b : UInt8) : List Bool := (List.range 8).map (bitAt b)

/-- The bits of a sequence of bytes. -/
def bitsOf (bytes : List UInt8) : List Bool := bytes.flatMap byteBits

/-- The first bits of a byte. -/
def Starts (b : UInt8) (bits : List Bool) : Prop :=
  ∀ j, j < 8 → ∀ h : j < bits.length, bitAt b j = bits[j]

@[simp] theorem byteBits_length (b : UInt8) : (byteBits b).length = 8 := by simp [byteBits]

theorem bitsOf_length (bytes : List UInt8) : (bitsOf bytes).length = 8 * bytes.length := by
  induction bytes with
  | nil => rfl
  | cons b bytes ih =>
    rw [bitsOf, List.flatMap_cons, List.length_append, byteBits_length, List.length_cons,
      Nat.mul_succ, ← ih, bitsOf, Nat.add_comm]

/-- Two bytes with the same bits are equal. -/
theorem eq_of_bitAt {a b : UInt8} (h : ∀ j, j < 8 → bitAt a j = bitAt b j) : a = b := by
  apply UInt8.toNat_inj.mp
  refine Nat.eq_of_testBit_eq fun i => ?_
  by_cases hi : i < 8
  · have hj := h (7 - i) (by omega)
    rwa [bitAt, bitAt, show 7 - (7 - i) = i by omega] at hj
  · have hlt : ∀ c : UInt8, c.toNat < 2 ^ i := fun c =>
      Nat.lt_of_lt_of_le c.toNat_lt (Nat.pow_le_pow_right (by omega) (by omega))
    rw [Nat.testBit_lt_two_pow (hlt a), Nat.testBit_lt_two_pow (hlt b)]

theorem starts_byteBits {a b : UInt8} (h : Starts a (byteBits b)) : a = b := by
  refine eq_of_bitAt fun j hj => ?_
  rw [h j hj (by simpa using hj)]
  simp [byteBits]

/-- A bit of the stream lies in the byte of its position. -/
theorem bitsOf_get {bytes : List UInt8} {i : Nat} (hi : i < (bitsOf bytes).length)
    (hb : i / 8 < bytes.length) : (bitsOf bytes)[i] = bitAt bytes[i / 8] (i % 8) := by
  induction bytes generalizing i with
  | nil => simp [bitsOf] at hi
  | cons b bytes ih =>
    simp only [bitsOf, List.flatMap_cons]
    by_cases h8 : i < 8
    · rw [List.getElem_append_left (by simpa using h8)]
      simp only [byteBits, List.getElem_map, List.getElem_range, Nat.div_eq_of_lt h8,
        List.getElem_cons_zero, Nat.mod_eq_of_lt h8]
    · rw [List.getElem_append_right (by simpa using h8)]
      have hlen : i - 8 < (bitsOf bytes).length := by
        rw [bitsOf_length] at hi ⊢
        rw [List.length_cons] at hi
        omega
      rw [List.length_cons] at hb
      have := ih hlen (by omega)
      simp only [byteBits_length, bitsOf] at this ⊢
      rw [this]
      simp only [show i / 8 = (i - 8) / 8 + 1 by omega, List.getElem_cons_succ,
        show i % 8 = (i - 8) % 8 by omega]

/-! ## The shifted window -/

/-- `(a << s) | (b >> (8 - s))`, cut to a byte. -/
def window (a b : UInt8) (s : Nat) : UInt8 :=
  UInt8.ofNat ((a.toNat <<< s) ||| (b.toNat >>> (8 - s)))

theorem bitAt_window (a b : UInt8) {s j : Nat} (hs : s < 8) (hj : j < 8) :
    bitAt (window a b s) j = if s + j < 8 then bitAt a (s + j) else bitAt b (s + j - 8) := by
  have hb : b.toNat < 2 ^ (8 - s + (7 - j)) ∨ 8 ≤ s + j := by
    by_cases h : 8 ≤ s + j
    · exact .inr h
    · exact .inl (Nat.lt_of_lt_of_le b.toNat_lt (Nat.pow_le_pow_right (by omega) (by omega)))
  simp only [bitAt, window, UInt8.toNat_ofNat', Nat.testBit_mod_two_pow, Nat.testBit_or,
    Nat.testBit_shiftLeft, Nat.testBit_shiftRight]
  rw [decide_eq_true (show 7 - j < 8 by omega), Bool.true_and]
  by_cases h : s + j < 8
  · rw [if_pos h, decide_eq_true (show 7 - j ≥ s by omega), Bool.true_and,
      Nat.testBit_lt_two_pow (hb.resolve_right (by omega)), Bool.or_false]
    congr 1; omega
  · rw [if_neg h, decide_eq_false (show ¬ 7 - j ≥ s by omega), Bool.false_and, Bool.false_or]
    congr 1; omega

/-- **A window starts with what starts at its position.** -/
theorem window_starts {bytes : List UInt8} {byte : Nat → UInt8}
    (hbyte : ∀ k (h : k < bytes.length), byte k = bytes[k]) {pre bits post : List Bool}
    (hs : bitsOf bytes = pre ++ bits ++ post) :
    Starts (window (byte (pre.length / 8)) (byte (pre.length / 8 + 1)) (pre.length % 8)) bits := by
  intro j hj hlen
  have htotal : pre.length + j < (bitsOf bytes).length := by
    rw [hs, List.length_append, List.length_append]; omega
  have hbit : (bitsOf bytes)[pre.length + j] = bits[j] := by
    simp only [hs, List.append_assoc]
    rw [List.getElem_append_right (by omega), List.getElem_append_left (by omega)]
    congr 1; omega
  have hpos := htotal
  rw [bitsOf_length] at hpos
  rw [bitAt_window _ _ (Nat.mod_lt _ (by omega)) hj, ← hbit, bitsOf_get htotal (by omega)]
  split
  · next h =>
    rw [hbyte _ (by omega)]
    congr 1
    · congr 1; omega
    · omega
  · next h =>
    rw [hbyte _ (by omega)]
    congr 1
    · congr 1; omega
    · omega

end SmartPrince.Lib.Bits

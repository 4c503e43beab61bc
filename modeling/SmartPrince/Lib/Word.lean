import Mathlib.Tactic.IntervalCases
import SmartPrince.Lib.Memory

/-! # 32-bit words in byte memory

A word occupies four bytes, least significant byte first. Loading and storing
one is stated byte by byte, so that a program that moves words is reasoned
about as one that moves bytes. -/
namespace SmartPrince.Lib.Word
open SmartPrince.Lib.Memory

/-- The word of four bytes. -/
def ofBytes (b0 b1 b2 b3 : UInt8) : UInt32 :=
  b0.toUInt32 ||| b1.toUInt32 <<< 8 ||| b2.toUInt32 <<< 16 ||| b3.toUInt32 <<< 24

/-- Byte `k` of a word. -/
def byteAt (w : UInt32) (k : Nat) : UInt8 := (w >>> (8 * k).toUInt32).toUInt8

/-! ## Bits -/

theorem byteAt_bit (w : UInt32) {k i : Nat} (hk : k < 4) (hi : i < 8) :
    (byteAt w k).toBitVec.getLsbD i = w.toBitVec.getLsbD (8 * k + i) := by
  have hm : 8 * k % 32 = 8 * k := Nat.mod_eq_of_lt (by omega)
  simp [byteAt, hi, hm]

/-- Two bytes with the same bits are equal. -/
theorem byte_ext {a b : UInt8} (h : ∀ i, i < 8 → a.toBitVec.getLsbD i = b.toBitVec.getLsbD i) :
    a = b := by
  apply UInt8.eq_of_toBitVec_eq
  ext i hi
  rw [← BitVec.getLsbD_eq_getElem, ← BitVec.getLsbD_eq_getElem, h i hi]

theorem ofBytes_bit (b0 b1 b2 b3 : UInt8) {i : Nat} (hi : i < 8) :
    (ofBytes b0 b1 b2 b3).toBitVec.getLsbD i = b0.toBitVec.getLsbD i ∧
    (ofBytes b0 b1 b2 b3).toBitVec.getLsbD (8 + i) = b1.toBitVec.getLsbD i ∧
    (ofBytes b0 b1 b2 b3).toBitVec.getLsbD (16 + i) = b2.toBitVec.getLsbD i ∧
    (ofBytes b0 b1 b2 b3).toBitVec.getLsbD (24 + i) = b3.toBitVec.getLsbD i := by
  simp [ofBytes]
  interval_cases i <;> simp

theorem byteAt_ofBytes (b0 b1 b2 b3 : UInt8) :
    byteAt (ofBytes b0 b1 b2 b3) 0 = b0 ∧ byteAt (ofBytes b0 b1 b2 b3) 1 = b1 ∧
    byteAt (ofBytes b0 b1 b2 b3) 2 = b2 ∧ byteAt (ofBytes b0 b1 b2 b3) 3 = b3 := by
  refine ⟨byte_ext fun i hi => ?_, byte_ext fun i hi => ?_, byte_ext fun i hi => ?_,
    byte_ext fun i hi => ?_⟩ <;>
  obtain ⟨h0, h1, h2, h3⟩ := ofBytes_bit b0 b1 b2 b3 hi
  · rw [byteAt_bit _ (by omega) hi, Nat.mul_zero, Nat.zero_add, h0]
  · rw [byteAt_bit _ (by omega) hi, h1]
  · rw [byteAt_bit _ (by omega) hi, h2]
  · rw [byteAt_bit _ (by omega) hi, h3]

/-! ## Words in memory -/

variable {ι : Type} [DecidableEq ι]

def loadWord (m : Mem ι) (p : Ptr ι) : UInt32 × Mem ι :=
  let (b0, m) := m.load p
  let (b1, m) := m.load (p + 1)
  let (b2, m) := m.load (p + 2)
  let (b3, m) := m.load (p + 3)
  (ofBytes b0 b1 b2 b3, m)

def storeWord (m : Mem ι) (p : Ptr ι) (w : UInt32) : Mem ι :=
  m.put p [byteAt w 0, byteAt w 1, byteAt w 2, byteAt w 3]

omit [DecidableEq ι] in
/-- A byte of a loaded word is the byte of memory. -/
theorem byteAt_loadWord (m : Mem ι) (p : Ptr ι) {k : Nat} (hk : k < 4) :
    byteAt (loadWord m p).1 k = m.byte (p + k) := by
  obtain ⟨h0, h1, h2, h3⟩ :=
    byteAt_ofBytes (m.byte p) (m.byte (p + 1)) (m.byte (p + 2)) (m.byte (p + 3))
  obtain rfl | rfl | rfl | rfl : k = 0 ∨ k = 1 ∨ k = 2 ∨ k = 3 := by omega
  · rw [Ptr.add_zero]; exact h0
  · exact h1
  · exact h2
  · exact h3

theorem storeWord_byte (m : Mem ι) (p : Ptr ι) (w : UInt32) :
    (storeWord m p w).byte = patch p 4 (byteAt w) m.byte := by
  have h : ∀ n, Function.update (patch p n (byteAt w) m.byte) (p + n) (byteAt w n) =
      patch p (n + 1) (byteAt w) m.byte := fun n => update_patch
  rw [← h 3, ← h 2, ← h 1, ← h 0, patch_zero, Ptr.add_zero]
  simp only [storeWord, Mem.put, Mem.store_byte, Ptr.add_assoc]

end SmartPrince.Lib.Word

import Mathlib.Data.Finset.Lattice.Fold
import Mathlib.Order.Lattice.Nat
import SmartPrince.Eyes.MotionCapture

/-! # The difference of two frames, `_motion_diff`

Both frames are cut into windows of ten by ten pixels; a window whose maxima
differ by much sets a bit in the word of its row. The words lie on the stack,
33 of them, and only as many as the height has whole windows are cleared. -/
namespace SmartPrince.Eyes.MotionDiff
open SmartPrince.Lib.Loop SmartPrince.Lib.Memory
open SmartPrince.Common.CameraState
open SmartPrince.Eyes.MotionCapture (refImg outImg)

/-! ## The code -/

def diffMaskRight : BitVec 32 := 0x7F000000
def diffMaskLeft : BitVec 32 := 0x000000FE
def diffMaskCenter : BitVec 32 := 0x000FF000
def diffValue : Int := 0xA00

/-- `wx`, `wy`: polling window size -/
def windowSize : Nat := 10

/-- Entries that `diff_mat` has. -/
def diffMatSize : Nat := 33

/-- What is done with an entry of `diff_mat`, and the counts that 1 is shifted by. -/
inductive Touch where
  | clear (i : Nat)
  | use (i : Nat)
  | shift (c : Nat)
  deriving DecidableEq, Repr

/-- The locals of the function, and what it touched, newest first; the entries
of `diff_mat` go on behind its end. -/
structure Diff where
  mem : Mem Buf
  diffMat : Nat → BitVec 32
  touched : List Touch
  right : Nat
  left : Nat
  up : Nat
  down : Nat
  center : Nat

/-- `byte = *(buf + offset + x); max = (byte > max) ? byte : max` -/
def poolByte (p : Ptr Buf) (s : UInt8 × Mem Buf) : UInt8 × Mem Buf :=
  let (byte, mem) := s.2.load p
  (if byte > s.1 then byte else s.1, mem)

def diffPoolingMax (buf : Ptr Buf) (width wx wy : Nat) (mem : Mem Buf) : UInt8 × Mem Buf :=
  loop wy (fun y => loop wx fun x => poolByte (buf + (width * y + x))) (0, mem)

/-- `diff_mat[y] = 0` -/
def clearEntry (y : Nat) (s : Diff) : Diff :=
  { s with diffMat := Function.update s.diffMat y 0, touched := .clear y :: s.touched }

/-- Window `c` of row `r`; `offset` is that of the row's first pixel. -/
def diffWindow (width offset r c : Nat) (s : Diff) : Diff :=
  let x := c * windowSize
  let (m0, mem) := diffPoolingMax (refImg + (offset + x)) width windowSize windowSize s.mem
  let (m1, mem) := diffPoolingMax (outImg + (offset + x)) width windowSize windowSize mem
  let diff : Int := m0.toNat - m1.toNat
  let s := { s with mem }
  if diff * diff > diffValue then
    { s with
      diffMat := Function.update s.diffMat r (s.diffMat r ||| 1#32 <<< c)
      touched := .use r :: .shift c :: s.touched }
  else s

def countRight (r : Nat) (s : Diff) : Diff :=
  if (s.diffMat r &&& diffMaskRight) >>> 24 ≠ 0 then { s with right := s.right + 1 } else s

def countLeft (r : Nat) (s : Diff) : Diff :=
  if s.diffMat r &&& diffMaskLeft ≠ 0 then { s with left := s.left + 1 } else s

def countCenter (my r : Nat) (s : Diff) : Diff :=
  let myDiv1 := my / 3
  let myDiv2 := myDiv1 * 2
  if (s.diffMat r &&& diffMaskCenter) >>> 12 ≠ 0 then
    if r < myDiv1 then { s with up := s.up + 1 }
    else if r > myDiv2 then { s with down := s.down + 1 }
    else { s with center := s.center + 1 }
  else s

/-- `diff_mat[r]` is read for each of the three masks. -/
def countRow (my r : Nat) (s : Diff) : Diff :=
  countCenter my r (countLeft r (countRight r { s with touched := .use r :: s.touched }))

def diffRow (width my r : Nat) (s : Diff) : Diff :=
  let y := r * windowSize
  let offset := width * y
  countRow my r (loop ((width + 9) / windowSize) (diffWindow width offset r) s)

/-- The locals at the start; `stack` is what the entries of `diff_mat` hold. -/
def startDiff (stack : Nat → BitVec 32) (mem : Mem Buf) : Diff where
  mem
  diffMat := stack
  touched := []
  right := 0
  left := 0
  up := 0
  down := 0
  center := 0

def motionDiff (tsk : Context) (stack : Nat → BitVec 32) (mem : Mem Buf) : Nat × Diff :=
  let width := tsk.imgs.width
  let height := tsk.imgs.height
  let my := height / windowSize
  let s := loop my clearEntry (startDiff stack mem)
  let s := loop ((height + 9) / windowSize) (diffRow width my) s
  let sum := s.right + s.left + s.up + s.down + s.center
  (if sum > 0 then 1 else 0, s)

/-! ## A window -/

/-- The pixel `(x, y)` of the window in column `c` and row `r`. -/
def pixel (width r c y x : Nat) : Nat := width * (r * windowSize + y) + (c * windowSize + x)

/-- The greatest byte of a window. -/
def windowMax (byte : Ptr Buf → UInt8) (img : Ptr Buf) (width r c : Nat) : Nat :=
  (Finset.range windowSize).sup fun y => (Finset.range windowSize).sup fun x =>
    (byte (img + pixel width r c y x)).toNat

/-- The maxima of the two frames in a window differ by more than 50. -/
def Differs (byte : Ptr Buf → UInt8) (width r c : Nat) : Prop :=
  50 < ((windowMax byte refImg width r c : Int) - windowMax byte outImg width r c).natAbs

instance (byte : Ptr Buf → UInt8) (width r c : Nat) : Decidable (Differs byte width r c) :=
  inferInstanceAs (Decidable (_ < _))

/-- What is loaded for a window: all its pixels. -/
def InWindow (img : Ptr Buf) (width r c : Nat) (a : Access Buf) : Prop :=
  ∃ y, y < windowSize ∧ ∃ x, x < windowSize ∧ a = .load (img + pixel width r c y x)

theorem windowed_pixel (img : Ptr Buf) (width r c y x : Nat) :
    img + (width * (r * windowSize) + c * windowSize) + (width * y + x) =
      img + pixel width r c y x := by
  rw [Ptr.add_assoc, pixel]
  congr 1
  ring

theorem poolByte_max (p : Ptr Buf) (s : UInt8 × Mem Buf) :
    (poolByte p s).1.toNat = max s.1.toNat (s.2.byte p).toNat := by
  change (if s.2.byte p > s.1 then s.2.byte p else s.1).toNat = _
  split
  · rename_i h
    have hlt : s.1.toNat < (s.2.byte p).toNat := h
    omega
  · rename_i h
    have hle : ¬ s.1.toNat < (s.2.byte p).toNat := h
    omega

theorem poolByte_log (p : Ptr Buf) (s : UInt8 × Mem Buf) :
    Adds (· = .load p) s.2.log (poolByte p s).2.log := adds_one _

/-- The maximum over a loop is that over its turns. -/
theorem loop_max {n : Nat} {turn : Nat → UInt8 × Mem Buf → UInt8 × Mem Buf} {v : Nat → Nat}
    {byte : Ptr Buf → UInt8} (hb : ∀ k s, s.2.byte = byte → (turn k s).2.byte = byte)
    (hv : ∀ k s, s.2.byte = byte → (turn k s).1.toNat = max s.1.toNat (v k))
    {s : UInt8 × Mem Buf} (hs : s.2.byte = byte) :
    (loop n turn s).2.byte = byte ∧
      (loop n turn s).1.toNat = max s.1.toNat ((Finset.range n).sup v) := by
  refine loop_inv (fun n (t : UInt8 × Mem Buf) => t.2.byte = byte ∧
    t.1.toNat = max s.1.toNat ((Finset.range n).sup v)) ⟨hs, by simp⟩ ?_
  rintro k t - ⟨hbyte, hmax⟩
  refine ⟨hb k t hbyte, ?_⟩
  rw [hv k t hbyte, hmax, Finset.range_add_one, Finset.sup_insert]
  omega

/-- One window of an image: its maximum, and what is loaded for it. -/
theorem diffPoolingMax_spec (img : Ptr Buf) (width r c : Nat) (mem : Mem Buf) :
    let s := diffPoolingMax (img + (width * (r * windowSize) + c * windowSize)) width windowSize
      windowSize mem
    s.2.byte = mem.byte ∧ s.1.toNat = windowMax mem.byte img width r c ∧
      Adds (InWindow img width r c) mem.log s.2.log := by
  unfold diffPoolingMax
  simp only [windowed_pixel]
  have hrow : ∀ y (s : UInt8 × Mem Buf), s.2.byte = mem.byte →
      (loop windowSize (fun x => poolByte (img + pixel width r c y x)) s).2.byte = mem.byte ∧
        (loop windowSize (fun x => poolByte (img + pixel width r c y x)) s).1.toNat =
          max s.1.toNat ((Finset.range windowSize).sup fun x =>
            (mem.byte (img + pixel width r c y x)).toNat) := by
    intro y s hs
    refine loop_max (fun x t ht => ?_) (fun x t ht => ?_) hs
    · exact ht
    · rw [poolByte_max, ht]
  obtain ⟨hbyte, hmax⟩ := loop_max (n := windowSize)
    (fun y s hs => (hrow y s hs).1) (fun y s hs => (hrow y s hs).2)
    (s := ((0, mem) : UInt8 × Mem Buf)) rfl
  refine ⟨hbyte, hmax.trans (Nat.zero_max _), ?_⟩
  refine adds_loop (f := fun s : UInt8 × Mem Buf => s.2.log) (I := fun _ => True) (s := (0, mem))
    (P := fun y a => ∃ x, x < windowSize ∧ a = .load (img + pixel width r c y x))
    (fun _ _ _ => trivial) (fun y s _ => ?_) trivial
  exact adds_loop (f := fun s : UInt8 × Mem Buf => s.2.log) (I := fun _ => True) (s := s)
    (P := fun x a => a = .load (img + pixel width r c y x))
    (fun _ _ _ => trivial) (fun x s _ => poolByte_log _ s) trivial

/-- The square is beyond `DIFF_VALUE` exactly where the difference is beyond 50. -/
theorem square_gt_iff (d : Int) : d * d > diffValue ↔ 50 < d.natAbs := by
  have hsq : d * d = (d.natAbs * d.natAbs : Nat) := (Int.natAbs_mul_self).symm
  unfold diffValue
  rw [hsq]
  constructor
  · intro h
    by_contra hle
    have := Nat.mul_le_mul (Nat.le_of_not_lt hle) (Nat.le_of_not_lt hle)
    omega
  · intro h
    have := Nat.mul_le_mul (Nat.succ_le_of_lt h) (Nat.succ_le_of_lt h)
    omega

/-- What a window does: it loads its pixels and, where the maxima differ, marks its bit. -/
theorem diffWindow_spec (width r c : Nat) (s : Diff) : ∃ mem : Mem Buf,
    mem.byte = s.mem.byte ∧
      Adds (fun a => InWindow refImg width r c a ∨ InWindow outImg width r c a) s.mem.log mem.log ∧
      diffWindow width (width * (r * windowSize)) r c s =
        if Differs s.mem.byte width r c then
          { s with
            mem
            diffMat := Function.update s.diffMat r (s.diffMat r ||| 1#32 <<< c)
            touched := .use r :: .shift c :: s.touched }
        else { s with mem } := by
  obtain ⟨hb0, hm0, hl0⟩ := diffPoolingMax_spec refImg width r c s.mem
  generalize h0 : diffPoolingMax (refImg + (width * (r * windowSize) + c * windowSize)) width
    windowSize windowSize s.mem = p0 at hb0 hm0 hl0
  obtain ⟨hb1, hm1, hl1⟩ := diffPoolingMax_spec outImg width r c p0.2
  generalize h1 : diffPoolingMax (outImg + (width * (r * windowSize) + c * windowSize)) width
    windowSize windowSize p0.2 = p1 at hb1 hm1 hl1
  refine ⟨p1.2, hb1.trans hb0, hl0.trans hl1, ?_⟩
  have hdiff : ((p0.1.toNat : Int) - p1.1.toNat) * ((p0.1.toNat : Int) - p1.1.toNat) > diffValue ↔
      Differs s.mem.byte width r c := by
    rw [square_gt_iff, hm0, hm1, hb0]
    rfl
  unfold diffWindow
  simp only [h0, h1, hdiff]

end SmartPrince.Eyes.MotionDiff

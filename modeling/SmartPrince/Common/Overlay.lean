import SmartPrince.Lib.CInt
import SmartPrince.Lib.Loop
import SmartPrince.Common.Yuv420p

/-! # Overlays, `picture.c`

`overlay_smartmask` and `overlay_largest_label` mark pixels of a picture in
planar 4:2:0: a marked pixel is black, and the block of four that it lies in is
red or blue. The planes are taken to lie behind `motionsize` bytes. The picture is
a function of the offset. -/
namespace SmartPrince.Common.Overlay
open SmartPrince.Lib.CInt SmartPrince.Lib.Loop SmartPrince.Common.Yuv420p

abbrev Pixels : Type := Int → UInt8

/-- `out[i] = v` -/
def store (out : Pixels) (i : Int) (v : UInt8) : Pixels := Function.update out i v

/-! ## The functions -/

/-- The cursors of the chroma planes, and the picture. -/
structure Overlaid where
  u : Int
  v : Int
  out : Pixels

section Overlay
variable (marked : Nat → Bool) (uValue vValue : UInt8)

/-- The four pixels of a block. -/
def blockMarked (width line x : Nat) : Bool :=
  marked (line + x) || marked (line + x + 1) || marked (line + width + x) || marked (line + width + x + 1)

def overlayBlock (width i x : Nat) (s : Overlaid) : Overlaid :=
  let out := if blockMarked marked width (2 * i * width) (2 * x) then
    store (store s.out s.u uValue) s.v vValue else s.out
  ⟨s.u + 1, s.v + 1, out⟩

/-- The walk the two overlays share. -/
def overlay (motionsize width height : Nat) (out : Pixels) : Pixels :=
  let v := int (motionsize + motionsize / 4)
  let s := loop ((height + 1) / 2) (fun i => loop ((width + 1) / 2) (overlayBlock marked uValue vValue width i))
    ⟨motionsize, v, out⟩
  loop motionsize (fun i out => if marked i then store out i 0 else out) s.out

end Overlay

/-- A pixel that the smartmask leaves out, and one of the largest label. -/
def isMasked (smartmask : Nat → UInt8) (p : Nat) : Bool := smartmask p = 0
def isLabelled (labels : Nat → BitVec 32) (p : Nat) : Bool := labels p &&& 32768 ≠ 0

/-- V is set to 255 to make the smartmask appear red. -/
def overlaySmartmask (smartmask : Nat → UInt8) (motionsize width height : Nat) (out : Pixels) : Pixels :=
  overlay (isMasked smartmask) 128 255 motionsize width height out

/-- U is set to 255 to make the label appear blue. -/
def overlayLargestLabel (labels : Nat → BitVec 32) (motionsize width height : Nat) (out : Pixels) : Pixels :=
  overlay (isLabelled labels) 255 128 motionsize width height out

/-! ## What is marked -/

/-- The planes of chroma fit in front of and behind where V starts, whose offset is an int. -/
structure Laid (w h motionsize : Nat) : Prop where
  width : w % 2 = 0
  height : h % 2 = 0
  room : w * h ≤ motionsize
  offset : motionsize + motionsize / 4 < 2 ^ 31

section Marked
variable {marked : Nat → Bool} {uValue vValue : UInt8} {w h motionsize : Nat} {out : Pixels}

/-- Whether one of the pixels of block `k` is marked. -/
def inBlock (marked : Nat → Bool) (w k : Nat) : Bool :=
  blockMarked marked w (2 * (k / (w / 2)) * w) (2 * (k % (w / 2)))

/-- The planes with the first `n` blocks coloured. -/
def coloured (marked : Nat → Bool) (uValue vValue : UInt8) (w : Nat) (u v : Int) (n : Nat) (out : Pixels)
    (p : Int) : UInt8 :=
  if u ≤ p ∧ p < u + n then if inBlock marked w (p - u).toNat then uValue else out p
  else if v ≤ p ∧ p < v + n then if inBlock marked w (p - v).toNat then vValue else out p
  else out p

theorem store_at (out : Pixels) (i : Int) (v : UInt8) (p : Int) :
    store out i v p = if p = i then v else out p := Function.update_apply ..

/-- A block more; the planes do not overlap. -/
theorem coloured_succ {u v : Int} {n : Nat} (hapart : u + n < v) :
    coloured marked uValue vValue w u v (n + 1) out =
      if inBlock marked w n then
        store (store (coloured marked uValue vValue w u v n out) (u + n) uValue) (v + n) vValue
      else coloured marked uValue vValue w u v n out := by
  funext p
  by_cases hu : p = u + n
  · have hv : ¬ p = v + n := by omega
    have hbefore : coloured marked uValue vValue w u v n out p = out p := by
      rw [coloured, if_neg (by omega), if_neg (by omega)]
    have hfirst : (p - u).toNat = n := by omega
    rw [coloured, if_pos (by omega), hfirst]
    split
    · rw [store_at, if_neg hv, store_at, if_pos hu]
    · rw [hbefore]
  by_cases hv : p = v + n
  · have hbefore : coloured marked uValue vValue w u v n out p = out p := by
      rw [coloured, if_neg (by omega), if_neg (by omega)]
    have hfirst : (p - v).toNat = n := by omega
    rw [coloured, if_neg (by omega), if_pos (by omega), hfirst]
    split
    · rw [store_at, if_pos hv]
    · rw [hbefore]
  · have hsame : coloured marked uValue vValue w u v (n + 1) out p =
        coloured marked uValue vValue w u v n out p := by
      have hu' : u ≤ p ∧ p < u + ((n + 1 : Nat) : Int) ↔ u ≤ p ∧ p < u + n := by omega
      have hv' : v ≤ p ∧ p < v + ((n + 1 : Nat) : Int) ↔ v ≤ p ∧ p < v + n := by omega
      simp only [coloured, hu', hv']
    rw [hsame]
    split
    · rw [store_at, if_neg hv, store_at, if_neg hu]
    · rfl

/-- The blocks of a frame, one after the other. -/
theorem blocks_coloured (hw : w % 2 = 0) (hh : h % 2 = 0) {u v : Int}
    (hapart : u + (w * h / 4 : Nat) ≤ v) :
    (loop ((h + 1) / 2) (fun i => loop ((w + 1) / 2) (overlayBlock marked uValue vValue w i))
      ⟨u, v, out⟩).out = coloured marked uValue vValue w u v (w * h / 4) out := by
  have hrows : (h + 1) / 2 = h / 2 := by omega
  have hcols : (w + 1) / 2 = w / 2 := by omega
  have hsize : h / 2 * (w / 2) = w * h / 4 := by rw [Nat.mul_comm, (frame_size hw hh).1]
  rw [hrows, hcols, loop_nest (h / 2) (w / 2) (overlayBlock marked uValue vValue w), hsize]
  refine congrArg Overlaid.out (loop_inv (fun k s =>
    s = ⟨u + k, v + k, coloured marked uValue vValue w u v k out⟩) ?_ fun k s hk hs => ?_)
  · congr 1
    · exact (Int.add_zero u).symm
    · exact (Int.add_zero v).symm
    · funext p
      rw [coloured, if_neg (by omega), if_neg (by omega)]
  · rw [hs, coloured_succ (by omega), overlayBlock]
    dsimp only
    rw [Int.natCast_succ, Int.add_assoc, Int.add_assoc]
    rfl

/-- The marked pixels, set to black. -/
theorem blackened_at (n : Nat) (out : Pixels) (p : Int) :
    loop n (fun i out => if marked i then store out i 0 else out) out p =
      if 0 ≤ p ∧ p < n ∧ marked p.toNat = true then 0 else out p := by
  induction n with
  | zero => exact (if_neg (by omega)).symm
  | succ n ih =>
    rw [loop_succ]
    by_cases hp : p = n
    · subst hp
      cases hm : marked n <;> simp [store_at, ih, hm]
    · have hlt : p < ((n + 1 : Nat) : Int) ↔ p < n := by omega
      cases hm : marked n <;> simp only [store_at, ih, hp, hlt, if_true, if_false, Bool.false_eq_true]

section Laid
variable (hlaid : Laid w h motionsize)
include hlaid

/-- The frame once it is marked. -/
theorem overlay_at (p : Int) : overlay marked uValue vValue motionsize w h out p =
    if 0 ≤ p ∧ p < motionsize then if marked p.toNat then 0 else out p
    else coloured marked uValue vValue w motionsize (motionsize + motionsize / 4 : Nat) (w * h / 4) out p := by
  have hroom := hlaid.room
  have hquarter : w * h / 4 ≤ motionsize / 4 := Nat.div_le_div_right hroom
  have hv : int (motionsize + motionsize / 4) = (motionsize + motionsize / 4 : Nat) :=
    int_natCast hlaid.offset
  unfold overlay
  rw [hv, blackened_at, blocks_coloured hlaid.width hlaid.height (by omega)]
  by_cases hp : 0 ≤ p ∧ p < motionsize
  · have hout : coloured marked uValue vValue w motionsize (motionsize + motionsize / 4 : Nat) (w * h / 4)
        out p = out p := by
      rw [coloured, if_neg (by omega), if_neg (by omega)]
    rw [if_pos hp, hout]
    simp only [hp, true_and]
  · rw [if_neg hp, if_neg fun hmarked => hp ⟨hmarked.1, hmarked.2.1⟩]

theorem overlay_luma {p : Nat} (hp : p < motionsize) :
    overlay marked uValue vValue motionsize w h out p = if marked p then 0 else out p := by
  rw [overlay_at hlaid, if_pos (by omega)]
  rfl

/-- Of block `k` both bytes of chroma are set, or neither. -/
theorem overlay_chroma {k : Nat} (hk : k < w * h / 4) :
    overlay marked uValue vValue motionsize w h out (motionsize + k : Nat) =
        (if inBlock marked w k then uValue else out (motionsize + k : Nat)) ∧
      overlay marked uValue vValue motionsize w h out (motionsize + motionsize / 4 + k : Nat) =
        if inBlock marked w k then vValue else out (motionsize + motionsize / 4 + k : Nat) := by
  have hroom := hlaid.room
  have hquarter : w * h / 4 ≤ motionsize / 4 := Nat.div_le_div_right hroom
  constructor
  · have hindex : (((motionsize + k : Nat) : Int) - motionsize).toNat = k := by omega
    rw [overlay_at hlaid, if_neg (by omega), coloured, if_pos (by omega), hindex]
  · have hindex : (((motionsize + motionsize / 4 + k : Nat) : Int) -
        (motionsize + motionsize / 4 : Nat)).toNat = k := by omega
    rw [overlay_at hlaid, if_neg (by omega), coloured, if_neg (by omega), if_pos (by omega), hindex]

/-- The offsets of the pixels, and of the blocks behind them. -/
def inPlanes (w h motionsize : Nat) (p : Int) : Prop :=
  0 ≤ p ∧ p < (motionsize + w * h / 4 : Nat) ∨
    (motionsize + motionsize / 4 : Nat) ≤ p ∧ p < (motionsize + motionsize / 4 + w * h / 4 : Nat)

theorem overlay_outside {p : Int} (hp : ¬ inPlanes w h motionsize p) :
    overlay marked uValue vValue motionsize w h out p = out p := by
  unfold inPlanes at hp
  rw [overlay_at hlaid, if_neg (by omega), coloured, if_neg (by omega), if_neg (by omega)]

end Laid

/-- One of the pixels of block `i`, `j` is marked. -/
def HasMark (marked : Nat → Bool) (w i j : Nat) : Prop :=
  ∃ x y, x / 2 = i ∧ y / 2 = j ∧ marked (y * w + x) = true

theorem inBlock_iff {i j : Nat} (hi : i < w / 2) :
    inBlock marked w (j * (w / 2) + i) = true ↔ HasMark marked w i j := by
  have hpos : 0 < w / 2 := Nat.zero_lt_of_lt hi
  have hrow : (j * (w / 2) + i) / (w / 2) = j := by
    rw [Nat.add_comm, Nat.add_mul_div_right _ _ hpos, Nat.div_eq_of_lt hi, Nat.zero_add]
  have hcol : (j * (w / 2) + i) % (w / 2) = i := by
    rw [Nat.add_comm, Nat.add_mul_mod_self_right, Nat.mod_eq_of_lt hi]
  have hnext : 2 * j * w + w = (2 * j + 1) * w := (Nat.succ_mul ..).symm
  unfold inBlock blockMarked
  rw [hrow, hcol, hnext]
  simp only [Bool.or_eq_true]
  constructor
  · rintro (((h | h) | h) | h)
    · exact ⟨2 * i, 2 * j, by omega, by omega, h⟩
    · exact ⟨2 * i + 1, 2 * j, by omega, by omega, h⟩
    · exact ⟨2 * i, 2 * j + 1, by omega, by omega, h⟩
    · exact ⟨2 * i + 1, 2 * j + 1, by omega, by omega, h⟩
  · rintro ⟨x, y, rfl, rfl, h⟩
    obtain hx | hx : x = 2 * (x / 2) ∨ x = 2 * (x / 2) + 1 := by omega
    · obtain hy | hy : y = 2 * (y / 2) ∨ y = 2 * (y / 2) + 1 := by omega
      · exact .inl (.inl (.inl (by rwa [← hx, ← hy])))
      · exact .inl (.inr (by rwa [← hx, ← hy]))
    · obtain hy | hy : y = 2 * (y / 2) ∨ y = 2 * (y / 2) + 1 := by omega
      · exact .inl (.inl (.inr (by rw [Nat.add_assoc, ← hx, ← hy]; exact h)))
      · exact .inr (by rw [Nat.add_assoc, ← hx, ← hy]; exact h)

end Marked

/-! ## One over the other -/

/-- Both overlays, the label over the smartmask. -/
def overlayBoth (smartmask : Nat → UInt8) (labels : Nat → BitVec 32) (motionsize w h : Nat) (out : Pixels) :
    Pixels :=
  overlayLargestLabel labels motionsize w h (overlaySmartmask smartmask motionsize w h out)

/-- **What both overlays leave of a frame.** A pixel is black if either marks it
and as it was if neither does; a block of four is blue if one of its pixels is
labelled, else red if one is masked, else as it was. -/
theorem label_over_mask {w h motionsize : Nat} (hlaid : Laid w h motionsize) (smartmask : Nat → UInt8)
    (labels : Nat → BitVec 32) (out : Pixels) :
    (∀ p : Nat, p < motionsize → overlayBoth smartmask labels motionsize w h out p =
      if isLabelled labels p || isMasked smartmask p then 0 else out p) ∧
    (∀ i j, i < w / 2 → j < h / 2 → ∀ u v : Nat, u = motionsize + (j * (w / 2) + i) →
      v = motionsize + motionsize / 4 + (j * (w / 2) + i) →
      (HasMark (isLabelled labels) w i j →
        overlayBoth smartmask labels motionsize w h out u = 255 ∧
        overlayBoth smartmask labels motionsize w h out v = 128) ∧
      (¬ HasMark (isLabelled labels) w i j → HasMark (isMasked smartmask) w i j →
        overlayBoth smartmask labels motionsize w h out u = 128 ∧
        overlayBoth smartmask labels motionsize w h out v = 255) ∧
      (¬ HasMark (isLabelled labels) w i j → ¬ HasMark (isMasked smartmask) w i j →
        overlayBoth smartmask labels motionsize w h out u = out u ∧
        overlayBoth smartmask labels motionsize w h out v = out v)) ∧
    ∀ p, ¬ inPlanes w h motionsize p → overlayBoth smartmask labels motionsize w h out p = out p := by
  unfold overlayBoth overlayLargestLabel overlaySmartmask
  refine ⟨fun p hp => ?_, fun i j hi hj u v hu hv => ?_, fun p hp => ?_⟩
  · rw [overlay_luma hlaid hp, overlay_luma hlaid hp]
    cases isLabelled labels p <;> cases isMasked smartmask p <;> rfl
  · have hk : j * (w / 2) + i < w * h / 4 := by
      have hrow : (j + 1) * (w / 2) ≤ h / 2 * (w / 2) := Nat.mul_le_mul_right _ hj
      rw [Nat.mul_comm (h / 2), (frame_size hlaid.width hlaid.height).1, Nat.succ_mul] at hrow
      omega
    subst hu hv
    obtain ⟨hu, hv⟩ := @overlay_chroma (isLabelled labels) 255 128 w h motionsize
      (overlay (isMasked smartmask) 128 255 motionsize w h out) hlaid _ hk
    obtain ⟨hu', hv'⟩ := @overlay_chroma (isMasked smartmask) 128 255 w h motionsize out hlaid _ hk
    rw [hu, hv, hu', hv', ← inBlock_iff hi, ← inBlock_iff hi]
    cases inBlock (isLabelled labels) w (j * (w / 2) + i) <;>
      cases inBlock (isMasked smartmask) w (j * (w / 2) + i) <;> simp
  · rw [overlay_outside hlaid hp, overlay_outside hlaid hp]

/-- The first pixel of a frame of 4 x 2 is masked, whose planes are taken to lie behind
those of a picture in colour. -/
def cornerMasked : Pixels :=
  overlayBoth (fun p => if p = 0 then 0 else 255) (fun _ => 0) 24 4 2 fun _ => 77

theorem label_over_mask_corner :
    cornerMasked 0 = 0 ∧ cornerMasked 1 = 77 ∧ cornerMasked 24 = 128 ∧ cornerMasked 30 = 255 := by
  have h := @label_over_mask 4 2 24 ⟨rfl, rfl, by decide, by decide⟩ (fun p => if p = 0 then 0 else 255)
    (fun _ => 0) fun _ => 77
  refine ⟨(h.1 0 (by decide)).trans (by decide), (h.1 1 (by decide)).trans (by decide), ?_⟩
  exact (h.2.1 0 0 (by decide) (by decide) 24 30 rfl rfl).2.1
    (fun ⟨_, _, _, _, hl⟩ => absurd hl (by simp [isLabelled])) ⟨0, 0, rfl, rfl, rfl⟩

end SmartPrince.Common.Overlay

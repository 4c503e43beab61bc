import Mathlib.Tactic.IntervalCases
import SmartPrince.Lib.Plane
import SmartPrince.Common.Yuv420p
import SmartPrince.Common.Rotate

/-! # What `rotate_map` does to a frame

The column walks of the quarter turns are brought to loops over the target's
index, which makes each a patch of memory with the turned plane; three planes
and the copy back then make a whole frame. The half turn swaps words from both
ends and meets in the middle, where the two words of the last swap may overlap
and up to four bytes may be left. -/
namespace SmartPrince.Common.RotateSoundness
open SmartPrince.Lib.Loop SmartPrince.Lib.Memory SmartPrince.Lib.Word SmartPrince.Lib.Plane
open SmartPrince.Lib.CInt
open SmartPrince.Common.CameraState SmartPrince.Common.Yuv420p SmartPrince.Common.Rotate

variable {ι : Type} [DecidableEq ι]

/-! ## The quarter turns of one plane -/

/-- Turn `j` of column `x`: the column is walked bottom-up. -/
def columnSite (src : Ptr ι) (W H x j : Nat) : Ptr ι := src + ((H - 1 - j) * W + x)

omit [DecidableEq ι] in
theorem columnSite_eq (src : Ptr ι) {W H x j : Nat} (hj : j < H) :
    src + W * H - W + x - j * W = columnSite src W H x j := by
  obtain ⟨d, rfl⟩ : ∃ d, H = d + 1 + j := ⟨H - 1 - j, by omega⟩
  refine Ptr.ext_off rfl ?_
  simp only [columnSite, Ptr.add_off, Ptr.sub_off, show d + 1 + j - 1 - j = d by omega]
  push_cast
  ring

theorem cwPixel_walk (base dst : Ptr ι) (W n : Nat) (m : Mem ι) :
    loop n (cwPixel W) ((base, dst), m) =
      ((base - n * W, dst + n), loop n (fun j m => m.copy (dst + j) (base - j * W)) m) := by
  refine loop_walk (fun j => (base - j * W, dst + j)) _ (by simp) (fun j m _ => ?_) m
  simp only [cwPixel, Ptr.add_assoc, Ptr.sub_sub, Nat.add_one_mul]

theorem ccwPixel_walk (base dst : Ptr ι) (W n : Nat) (m : Mem ι) :
    loop n (ccwPixel W) ((base, dst), m) =
      ((base - n * W, dst - n), loop n (fun j m => m.copy (dst - j) (base - j * W)) m) := by
  refine loop_walk (fun j => (base - j * W, dst - j)) _ (by simp) (fun j m _ => ?_) m
  simp only [ccwPixel, Ptr.sub_sub, Nat.add_one_mul]

/-- The clockwise walk, for a block of any size. -/
theorem rot90cw_loop (src dst : Ptr ι) (size W H : Nat) (m : Mem ι) :
    rot90cw src dst size W H m = loop (W * H)
      (fun k m => m.copy (dst + k) (src + size - W + k / H - k % H * W)) m := by
  have hcols : (loop W (cwColumn W H) ((src + size - W, dst), m)).2 =
      loop W (fun x => loop H fun j m =>
        m.copy (dst + (x * H + j)) (src + size - W + x - j * W)) m := by
    rw [loop_walk (fun x => (src + size - W + x, dst + x * H))
      (fun x => loop H fun j m => m.copy (dst + (x * H + j)) (src + size - W + x - j * W)) (by simp)]
    intro x m _
    simp only [cwColumn, cwPixel_walk, Ptr.add_assoc, Nat.add_one_mul]
  rw [rot90cw, hcols, loop_nest]
  refine loop_congr (fun k m _ => ?_) m
  rw [Nat.div_add_mod']

theorem rot90ccw_loop (src dst : Ptr ι) (size W H : Nat) (m : Mem ι) :
    rot90ccw src dst size W H m = loop (W * H)
      (fun k m => m.copy (dst + size - 1 - k) (src + size - W + k / H - k % H * W)) m := by
  have hcols : (loop W (ccwColumn W H) ((src + size - W, dst + size - 1), m)).2 =
      loop W (fun x => loop H fun j m =>
        m.copy (dst + size - 1 - (x * H + j)) (src + size - W + x - j * W)) m := by
    rw [loop_walk (fun x => (src + size - W + x, dst + size - 1 - x * H))
      (fun x => loop H fun j m =>
        m.copy (dst + size - 1 - (x * H + j)) (src + size - W + x - j * W)) (by simp)]
    intro x m _
    simp only [ccwColumn, ccwPixel_walk, Ptr.add_assoc, Ptr.sub_sub, Nat.add_one_mul, Nat.add_assoc]
  rw [rot90ccw, hcols, loop_nest]
  refine loop_congr (fun k m hk => ?_) m
  rw [Nat.div_add_mod']

omit [DecidableEq ι] in
/-- The source of target index `k`, on a block of whole rows. -/
theorem columnSite_index (src : Ptr ι) {W H k : Nat} (hk : k < W * H) :
    src + W * H - W + k / H - k % H * W = columnSite src W H (k / H) (k % H) := by
  have hH : 0 < H := Nat.pos_of_ne_zero fun h0 => by simp [h0] at hk
  exact columnSite_eq src (Nat.mod_lt _ hH)

theorem rot90cw_walk (src dst : Ptr ι) (W H : Nat) (m : Mem ι) :
    rot90cw src dst (W * H) W H m = loop (W * H)
      (fun k m => m.copy (dst + k) (columnSite src W H (k / H) (k % H))) m := by
  rw [rot90cw_loop]
  exact loop_congr (fun k m hk => by rw [columnSite_index src hk]) m

theorem rot90ccw_walk (src dst : Ptr ι) (W H : Nat) (m : Mem ι) :
    rot90ccw src dst (W * H) W H m = loop (W * H)
      (fun k m => m.copy (dst + (W * H - 1 - k)) (columnSite src W H (k / H) (k % H))) m := by
  rw [rot90ccw_loop]
  refine loop_congr (fun k m hk => ?_) m
  rw [columnSite_index src hk, Ptr.sub_sub, Ptr.add_sub _ (by omega), Nat.sub_sub]

/-- The clockwise walk leaves the turned plane at `dst`. -/
theorem rot90cw_byte {src dst : Ptr ι} (hb : src.base ≠ dst.base) (W H : Nat) (m : Mem ι) :
    (rot90cw src dst (W * H) W H m).byte =
      patch dst (W * H) (rot90 W H fun i => m.byte (src + i)) m.byte := by
  rw [rot90cw_walk]
  refine loop_patch m fun k t hk ht => ?_
  simp only [Mem.copy, Mem.load, Mem.store_byte, ht]
  rw [patch_base (by simpa [columnSite] using hb)]
  rfl

/-- The counterclockwise walk, from the end of `dst` backward. -/
theorem rot90ccw_byte {src dst : Ptr ι} (hb : src.base ≠ dst.base) (W H : Nat) (m : Mem ι) :
    (rot90ccw src dst (W * H) W H m).byte =
      patch dst (W * H) (rot270 W H fun i => m.byte (src + i)) m.byte := by
  rw [rot90ccw_walk]
  refine loop_patch_down m fun k t hk ht => ?_
  simp only [Mem.copy, Mem.load, Mem.store_byte, ht]
  rw [patch_base (by simpa [columnSite] using hb)]
  congr 1
  -- the last target index minus `k` is row `W - 1 - k / H`, column `H - 1 - k % H`
  have hH : 0 < H := Nat.pos_of_ne_zero fun h0 => by simp [h0] at hk
  have hx : k / H < W := (Nat.div_lt_iff_lt_mul hH).mpr hk
  have hj : k % H < H := Nat.mod_lt _ hH
  have hdm := Nat.div_add_mod' k H
  generalize k / H = x at *
  generalize k % H = j at *
  have hk' : W * H - 1 - k = (W - 1 - x) * H + (H - 1 - j) := by
    obtain ⟨d, rfl⟩ : ∃ d, W = d + 1 + x := ⟨W - 1 - x, by omega⟩
    have e : (d + 1 + x) * H = d * H + H + x * H := by ring
    rw [show d + 1 + x - 1 - x = d by omega]
    omega
  rw [rot270, hk', site_div (by omega), site_mod (by omega),
    show W - 1 - (W - 1 - x) = x by omega, columnSite]

/-! ## The half turn of one plane -/

theorem byteAt_swapBytes (x : UInt32) {k : Nat} (hk : k < 4) :
    byteAt (swapBytes x) k = byteAt x (3 - k) := by
  refine byte_ext fun i hi => ?_
  rw [byteAt_bit _ hk hi, byteAt_bit _ (by omega) hi]
  simp only [swapBytes]
  interval_cases k <;> interval_cases i <;> simp

/-- The source of byte `i` after `k` swaps from both ends of `s` bytes. -/
def swapped (s k i : Nat) : Nat := if i < 4 * k ∨ s ≤ i + 4 * k then s - 1 - i else i

/-- One swap: the words at `4 * k` and, from the end, `4 * k + 4`. They may overlap. -/
theorem swapWords_byte (src : Ptr ι) {s k : Nat} (hk : 8 * k + 4 < s) {f : Ptr ι → UInt8}
    {m : Mem ι} (hm : m.byte = patch src s (fun i => f (src + swapped s k i)) f) :
    (storeWord
      (storeWord m (src + (s - 4 - 4 * k)) (swapBytes (loadWord m (src + 4 * k)).1))
      (src + 4 * k) (swapBytes (loadWord m (src + (s - 4 - 4 * k))).1)).byte =
      patch src s (fun i => f (src + swapped s (k + 1) i)) f := by
  have hword : ∀ a j, j < 4 → 4 * k ≤ a → a + 4 + 4 * k ≤ s →
      byteAt (swapBytes (loadWord m (src + a)).1) j = f (src + (a + 3 - j)) := by
    intro a j hj ha hs
    rw [byteAt_swapBytes _ hj, byteAt_loadWord _ _ (by omega), hm, Ptr.add_assoc,
      patch_in (by omega), swapped, if_neg (by omega), show a + (3 - j) = a + 3 - j by omega]
  funext q
  rw [storeWord_byte, storeWord_byte]
  by_cases hq : Span src s q
  · obtain ⟨i, hi, rfl⟩ := hq.eq_add
    rw [patch_in hi, swapped, patch_at]
    by_cases h1 : 4 * k ≤ i ∧ i < 4 * k + 4
    · rw [if_pos h1, if_pos (by omega), hword _ _ (by omega) (by omega) (by omega)]
      congr 2; omega
    · rw [if_neg h1, patch_at]
      by_cases h2 : s - 4 - 4 * k ≤ i ∧ i < s - 4 - 4 * k + 4
      · rw [if_pos h2, if_pos (by omega), hword _ _ (by omega) (by omega) (by omega)]
        congr 2; omega
      · rw [if_neg h2, hm, patch_in hi, swapped]
        -- the swaps before this one, and the bytes between
        by_cases h3 : i < 4 * k ∨ s ≤ i + 4 * k
        · rw [if_pos h3, if_pos (by omega)]
        · rw [if_neg h3, if_neg (by omega)]
  · rw [patch_out hq, patch_beyond (by omega) hq, patch_beyond (by omega) hq, hm, patch_out hq]

theorem reverseQuads_byte (src : Ptr ι) (s : Nat) (f : Ptr ι → UInt8) :
    ∀ n k m, k + n = (s + 3) / 8 → m.byte = patch src s (fun i => f (src + swapped s k i)) f →
      (reverseQuads (src + 4 * k) (src + s - 4 - 4 * k) m).byte =
        patch src s (fun i => f (src + swapped s ((s + 3) / 8) i)) f := by
  intro n
  induction n with
  | zero =>
    intro k m hk hm
    rw [reverseQuads, if_neg (by simp only [Ptr.add_off, Ptr.sub_off]; omega), hm, ← hk,
      Nat.add_zero]
  | succ n ih =>
    intro k m hk hm
    rw [reverseQuads, if_pos (by simp only [Ptr.add_off, Ptr.sub_off]; omega), Ptr.add_assoc,
      Ptr.sub_sub _ (4 * k)]
    refine ih (k + 1) _ (by omega) ?_
    rw [Ptr.add_sub _ (by omega), Ptr.add_sub _ (by omega)]
    exact swapWords_byte src (by omega) hm

/-- Byte `i` of `s` after the walk: mirrored, unless it is one of the two to
four middle bytes left when `s` is 2, 3 or 4 modulo 8. -/
def halfTurned (s i : Nat) : Nat := swapped s ((s + 3) / 8) i

theorem reverseInplaceQuad_byte (src : Ptr ι) (s : Nat) (m : Mem ι) :
    (reverseInplaceQuad src s m).byte =
      patch src s (fun i => m.byte (src + halfTurned s i)) m.byte := by
  have h := reverseQuads_byte src s m.byte ((s + 3) / 8) 0 m (Nat.zero_add _) ?_
  · simpa [reverseInplaceQuad, halfTurned] using h
  · funext p
    by_cases hs : Span src s p
    · obtain ⟨i, hi, rfl⟩ := hs.eq_add
      rw [patch_in hi, swapped, if_neg (by omega)]
    · rw [patch_out hs]

theorem halfTurned_lt {s i : Nat} (hi : i < s) : halfTurned s i < s := by
  rw [halfTurned, swapped]; split <;> omega

/-- A plane of whole word pairs is mirrored. -/
theorem halfTurned_eq {s i : Nat} (hs : s % 8 = 0) : halfTurned s i = s - 1 - i := by
  rw [halfTurned, swapped, if_pos (by omega)]

/-! ## The quarter turns of a frame -/

/-- Each plane of a frame, turned. -/
def turned (r : Nat → Nat → (Nat → UInt8) → Nat → UInt8) (w h : Nat) (F : Frame) : Frame where
  y := r w h F.y
  u := r (w / 2) (h / 2) F.u
  v := r (w / 2) (h / 2) F.v

/-- Each plane of a frame, mirrored as the half turn does it. -/
def halfFrame (w h : Nat) (F : Frame) : Frame where
  y k := F.y (halfTurned (w * h) k)
  u k := F.u (halfTurned (w * h / 4) k)
  v k := F.v (halfTurned (w * h / 4) k)

/-- `walk` leaves the plane at its source, turned by `r`, at its target. -/
def Turns (walk : Ptr Buf → Ptr Buf → Nat → Nat → Nat → Mem Buf → Mem Buf)
    (r : Nat → Nat → (Nat → UInt8) → Nat → UInt8) : Prop :=
  ∀ {src dst : Ptr Buf}, src.base ≠ dst.base → ∀ W H m,
    (walk src dst (W * H) W H m).byte =
      patch dst (W * H) (r W H fun i => m.byte (src + i)) m.byte

/-- The three planes of a frame, turned one after the other, are the turned frame. -/
theorem turn_planes {walk : Ptr Buf → Ptr Buf → Nat → Nat → Nat → Mem Buf → Mem Buf}
    {r : Nat → Nat → (Nat → UInt8) → Nat → UInt8} (hr : Turns walk r) {src dst : Ptr Buf}
    (hb : src.base ≠ dst.base) {w h : Nat} (hw : w % 2 = 0) (hh : h % 2 = 0) (m : Mem Buf) :
    (walk (vPlane src w h) (vPlane dst w h) (w * h / 4) (w / 2) (h / 2)
      (walk (uPlane src w h) (uPlane dst w h) (w * h / 4) (w / 2) (h / 2)
        (walk src dst (w * h) w h m))).byte =
      putFrame dst w h (turned r w h (getFrame src w h m.byte)) m.byte := by
  have hr4 : ∀ {p q : Ptr Buf}, p.base ≠ q.base → ∀ m,
      (walk p q (w * h / 4) (w / 2) (h / 2) m).byte =
        patch q (w * h / 4) (r (w / 2) (h / 2) fun i => m.byte (p + i)) m.byte := by
    intro p q hpq m
    rw [← (frame_size hw hh).1]
    exact hr hpq (w / 2) (h / 2) m
  have hu : (uPlane src w h).base ≠ dst.base := hb
  have hv : (vPlane src w h).base ≠ dst.base := hb
  have hu' : (uPlane src w h).base ≠ (uPlane dst w h).base := hb
  have hv' : (vPlane src w h).base ≠ (vPlane dst w h).base := hb
  have huv : (vPlane src w h).base ≠ (uPlane dst w h).base := hb
  rw [hr4 hv', hr4 hu', hr hb, patch_base_run hu, patch_base_run huv, patch_base_run hv,
    ← patch_planes]
  rfl

/-- The frame `rotate_map` makes of one, by the degrees. -/
def rotated (deg : Int) (w h : Nat) (F : Frame) : Frame :=
  if deg = 90 then turned rot90 w h F
  else if deg = 180 then halfFrame w h F
  else if deg = 270 then turned rot270 w h F
  else F

theorem rotated_congr {deg : Int} {w h : Nat} (hw : w % 2 = 0) (hh : h % 2 = 0) {F G : Frame}
    (hs : F.Same w h G) : (rotated deg w h F).Same w h (rotated deg w h G) := by
  obtain ⟨h4, _, _⟩ := frame_size hw hh
  obtain ⟨hy, hu, hv⟩ := hs
  rw [← h4] at hu hv
  unfold rotated
  split
  · exact ⟨fun k hk => rot90_congr hy hk, fun k hk => rot90_congr hu (h4 ▸ hk),
      fun k hk => rot90_congr hv (h4 ▸ hk)⟩
  · split
    · rw [h4] at hu hv
      exact ⟨fun k hk => hy _ (halfTurned_lt hk), fun k hk => hu _ (halfTurned_lt hk),
        fun k hk => hv _ (halfTurned_lt hk)⟩
    · split
      · exact ⟨fun k hk => rot270_congr hy hk, fun k hk => rot270_congr hu (h4 ▸ hk),
          fun k hk => rot270_congr hv (h4 ▸ hk)⟩
      · exact ⟨hy, fun k hk => hu k (h4 ▸ hk), fun k hk => hv k (h4 ▸ hk)⟩

/-- A turned plane tells the samples it was made of. -/
def Tells (r : Nat → Nat → (Nat → UInt8) → Nat → UInt8) : Prop :=
  ∀ {W H i}, i < W * H → ∃ j, j < W * H ∧ ∀ p, r W H p j = p i

theorem rot90_tells : Tells rot90 :=
  fun hi => ⟨_, turned90_lt hi, fun p => rot90_turned90 p hi⟩

theorem rot270_tells : Tells rot270 :=
  fun hi => ⟨_, turned270_lt hi, fun p => rot270_turned270 p hi⟩

theorem turned_inj {r : Nat → Nat → (Nat → UInt8) → Nat → UInt8} (hr : Tells r) {w h : Nat}
    (hw : w % 2 = 0) (hh : h % 2 = 0) {F G : Frame}
    (hs : (turned r w h F).Same w h (turned r w h G)) : F.Same w h G := by
  obtain ⟨h4, _, _⟩ := frame_size hw hh
  have hplane : ∀ {W H : Nat} {p q : Nat → UInt8}, (∀ k, k < W * H → r W H p k = r W H q k) →
      ∀ k, k < W * H → p k = q k := by
    intro W H p q hpq k hk
    obtain ⟨j, hj, htells⟩ := hr hk
    rw [← htells p, hpq j hj, htells q]
  refine ⟨hplane hs.y, fun k hk => ?_, fun k hk => ?_⟩
  · exact hplane (fun j hj => hs.u j (h4 ▸ hj)) k (h4.symm ▸ hk)
  · exact hplane (fun j hj => hs.v j (h4 ▸ hj)) k (h4.symm ▸ hk)

section Frames
variable {map : Ptr Buf} (hb : map.base ≠ .tempBuf) {cnt : Context} {w h : Nat}
  (hw : w % 2 = 0) (hh : h % 2 = 0) (ht : cnt.imgs.type = paletteYuv420p)
  (hcw : cnt.rotateData.capWidth = w) (hch : cnt.rotateData.capHeight = h)
include hb hw hh ht hcw hch

/-- The planes are turned into the temporary buffer and come back as one block. -/
theorem rotateQuarter_byte {walk : Ptr Buf → Ptr Buf → Nat → Nat → Nat → Mem Buf → Mem Buf}
    {r : Nat → Nat → (Nat → UInt8) → Nat → UInt8} (hr : Turns walk r) (m : Mem Buf) :
    (rotateQuarter walk cnt map m).byte =
      putFrame map w h (turned r w h (getFrame map w h m.byte))
        (putFrame tempBuf w h (turned r w h (getFrame map w h m.byte)) m.byte) := by
  obtain ⟨_, _, h6⟩ := frame_size hw hh
  have hsize : w * h * 3 / 2 = w * h + w * h / 4 + w * h / 4 := by omega
  have hp := turn_planes hr (show map.base ≠ tempBuf.base from hb) hw hh m
  rw [uPlane, uPlane, vPlane, vPlane] at hp
  simp only [rotateQuarter, hcw, hch, if_pos ht]
  rw [Mem.memcpy_byte (Ne.symm hb), hp, hsize]
  refine Eq.trans (patch_congr fun i hi => ?_) patch_block
  exact putFrame_bytes hi

/-- **The turned frame lies at `map`**, and only the temporary buffer changed besides. -/
theorem rotateMap_quarter {deg : Int}
    {r : Nat → Nat → (Nat → UInt8) → Nat → UInt8} (hd : cnt.rotateData.degrees = deg)
    (hr : deg = 90 ∧ r = rot90 ∨ deg = 270 ∧ r = rot270) (m : Mem Buf) :
    (rotateMap cnt map m).1 = 0 ∧
    ∀ p, p.base ≠ .tempBuf → (rotateMap cnt map m).2.byte p =
      putFrame map w h (turned r w h (getFrame map w h m.byte)) m.byte p := by
  have hframe : ∀ p, p.base ≠ .tempBuf →
      putFrame map w h (turned r w h (getFrame map w h m.byte))
        (putFrame tempBuf w h (turned r w h (getFrame map w h m.byte)) m.byte) p =
      putFrame map w h (turned r w h (getFrame map w h m.byte)) m.byte p := by
    intro p hp
    by_cases hs : Span map (w * h + w * h / 4 + w * h / 4) p
    · obtain ⟨i, hi, rfl⟩ := hs.eq_add
      rw [putFrame_bytes hi, putFrame_bytes hi]
    · rw [putFrame_out hs, putFrame_out hs]
      exact partFrame_base hp
  obtain ⟨rfl, rfl⟩ | ⟨rfl, rfl⟩ := hr
  · simp only [rotateMap, hd, if_true, true_and]
    intro p hp
    rw [rotateQuarter_byte hb hw hh ht hcw hch fun hb W H m => rot90cw_byte hb W H m]
    exact hframe p hp
  · simp only [rotateMap, hd]
    refine ⟨rfl, fun p hp => ?_⟩
    simp only [show ¬ (270 : Int) = 90 by decide, show ¬ (270 : Int) = 180 by decide, if_false,
      if_true]
    rw [rotateQuarter_byte hb hw hh ht hcw hch fun hb W H m => rot90ccw_byte hb W H m]
    exact hframe p hp

omit hb hw hh in
/-- The half turn works in place, plane by plane. -/
theorem rotateMap_half (hd : cnt.rotateData.degrees = 180) (m : Mem Buf) :
    (rotateMap cnt map m).1 = 0 ∧ (rotateMap cnt map m).2.byte =
      putFrame map w h (halfFrame w h (getFrame map w h m.byte)) m.byte := by
  have h180 : ¬ (180 : Int) = 90 := by decide
  simp only [rotateMap, hd, hcw, hch, if_pos ht, if_neg h180, if_true, true_and]
  have e1 := reverseInplaceQuad_byte map (w * h) m
  have e2 := reverseInplaceQuad_byte (uPlane map w h) (w * h / 4) (reverseInplaceQuad map (w * h) m)
  have e3 := reverseInplaceQuad_byte (vPlane map w h) (w * h / 4)
    (reverseInplaceQuad (uPlane map w h) (w * h / 4) (reverseInplaceQuad map (w * h) m))
  refine e3.trans ?_
  rw [e2, e1, ← patch_planes]
  -- the planes are apart, so each is still as it was when its turn comes
  refine (patch_congr fun i hi => ?_).trans (congrArg _ (patch_congr fun i hi => ?_))
  · have hi' := span_add (p := vPlane map w h).mpr (halfTurned_lt hi)
    rw [patch_out fun hu => u_not_v hu hi', patch_out fun hy => y_not_v hy hi']
    rfl
  · have hi' := span_add (p := uPlane map w h).mpr (halfTurned_lt hi)
    rw [patch_out fun hy => y_not_u hy hi']
    rfl

/-- **The rotated frame lies at `map`**, and besides only the temporary buffer changed. -/
theorem rotateMap_byte
    (hd : cnt.rotateData.degrees = 90 ∨ cnt.rotateData.degrees = 180 ∨ cnt.rotateData.degrees = 270)
    (m : Mem Buf) : (rotateMap cnt map m).1 = 0 ∧
    ∀ p, p.base ≠ .tempBuf → (rotateMap cnt map m).2.byte p =
      putFrame map w h (rotated cnt.rotateData.degrees w h (getFrame map w h m.byte)) m.byte p := by
  rcases hd with hd | hd | hd <;> simp only [rotated, hd]
  · exact rotateMap_quarter hb hw hh ht hcw hch hd (.inl ⟨rfl, rfl⟩) m
  · obtain ⟨hr, he⟩ := rotateMap_half ht hcw hch hd m
    exact ⟨hr, fun p _ => congrFun he p⟩
  · exact rotateMap_quarter hb hw hh ht hcw hch hd (.inr ⟨rfl, rfl⟩) m

end Frames

/-! ## What `rotate_init` sets up -/

/-- The angle is one that `rotate_map` knows, or there is no rotation. -/
theorem rotateDegrees_cases (cnt : Context) :
    (rotateDegrees cnt).rotateData.degrees ≤ 0 ∨ (rotateDegrees cnt).rotateData.degrees = 90 ∨
      (rotateDegrees cnt).rotateData.degrees = 180 ∨
      (rotateDegrees cnt).rotateData.degrees = 270 := by
  unfold rotateDegrees
  split
  · exact .inl le_rfl
  · next h90 =>
    rcases Int.lt_or_le cnt.conf.rotateDeg 0 with hneg | hpos
    · have hn : 0 ≤ (-cnt.conf.rotateDeg).tmod 360 := Int.tmod_nonneg _ (by omega)
      rw [Int.neg_tmod] at hn
      exact .inl (by simpa using hn)
    · rw [Int.tmod_eq_emod_of_nonneg hpos] at h90
      simp only [Int.tmod_eq_emod_of_nonneg hpos]
      omega

/-- Formats whose planes can be rotated. -/
def Supported (cnt : Context) : Prop :=
  cnt.imgs.type = paletteYuv420p ∨ cnt.imgs.type = paletteGrey

/-- The angle after the first check. -/
def angle (cnt : Context) : Int := (rotateDegrees cnt).rotateData.degrees

def quarterSize (cnt : Context) : Int :=
  if cnt.imgs.type = paletteYuv420p then yuvBytes cnt.imgs.height cnt.imgs.width
  else int (cnt.imgs.height * cnt.imgs.width)

/-- What the stages leave: the swap goes by the angle, the rest also by the format. -/
structure Staged (cnt cnt' : Context) : Prop where
  degrees : Supported cnt → cnt'.rotateData.degrees = angle cnt
  disabled : ¬ Supported cnt → cnt'.rotateData.degrees = 0
  capWidth : cnt'.rotateData.capWidth = cnt.imgs.width
  capHeight : cnt'.rotateData.capHeight = cnt.imgs.height
  imgs : cnt'.imgs = if angle cnt = 90 ∨ angle cnt = 270 then
    { cnt.imgs with width := cnt.imgs.height, height := cnt.imgs.width } else cnt.imgs
  conf : ∃ deg, cnt'.conf = { cnt.conf with rotateDeg := deg }
  buffer : Supported cnt → (angle cnt = 90 ∨ angle cnt = 270) →
    cnt'.rotateData.tempBuf = mymalloc (quarterSize cnt)
  noBuffer : ¬ (Supported cnt ∧ (angle cnt = 90 ∨ angle cnt = 270)) →
    cnt'.rotateData.tempBuf = none

/-- The check of the angle changes the angle alone. -/
theorem rotateDegrees_kept (cnt : Context) :
    (rotateDegrees cnt).imgs = cnt.imgs ∧
      (rotateDegrees cnt).rotateData.tempBuf = cnt.rotateData.tempBuf ∧
      ∃ deg, (rotateDegrees cnt).conf = { cnt.conf with rotateDeg := deg } := by
  unfold rotateDegrees
  split
  · exact ⟨rfl, rfl, _, rfl⟩
  · exact ⟨rfl, rfl, cnt.conf.rotateDeg, rfl⟩

theorem angle_cleared (cnt : Context) :
    angle { cnt with rotateData := { cnt.rotateData with tempBuf := none } } = angle cnt := by
  unfold angle rotateDegrees
  dsimp only
  split <;> rfl

theorem rotateInit_staged (cnt : Context) : Staged cnt (rotateInit cnt) := by
  have hdeg := angle_cleared cnt
  obtain ⟨himgs, htemp, hconf⟩ :=
    rotateDegrees_kept { cnt with rotateData := { cnt.rotateData with tempBuf := none } }
  unfold rotateInit
  dsimp only
  rw [angle] at hdeg
  generalize
    rotateDegrees { cnt with rotateData := { cnt.rotateData with tempBuf := none } } = d at *
  rw [himgs]
  by_cases hq : d.rotateData.degrees = 90 ∨ d.rotateData.degrees = 270
  · have h0 : d.rotateData.degrees ≠ 0 := by omega
    have hq' := hq
    rw [hdeg] at hq'
    simp only [if_pos hq, if_neg h0]
    by_cases hs : Supported cnt
    · simp only [if_pos (show _ ∨ _ from hs)]
      exact ⟨fun _ => hdeg, fun h => absurd hs h, rfl, rfl, by rw [if_pos hq'], hconf,
        fun _ _ => rfl, fun h => absurd ⟨hs, hq'⟩ h⟩
    · simp only [if_neg (show ¬ (_ ∨ _) from hs)]
      exact ⟨fun h => absurd h hs, fun _ => rfl, rfl, rfl, by rw [if_pos hq'], hconf,
        fun h => absurd h hs, fun _ => htemp⟩
  · have hq' := hq
    rw [hdeg] at hq'
    simp only [if_neg hq]
    by_cases h0 : d.rotateData.degrees = 0
    · simp only [if_pos h0]
      exact ⟨fun _ => hdeg, fun _ => h0, rfl, rfl, by rw [if_neg hq'], hconf,
        fun _ h => absurd h hq', fun _ => htemp⟩
    · simp only [if_neg h0]
      by_cases hs : Supported cnt
      · simp only [if_pos (show _ ∨ _ from hs)]
        exact ⟨fun _ => hdeg, fun h => absurd hs h, rfl, rfl, by rw [if_neg hq'], hconf,
          fun _ h => absurd h hq', fun _ => htemp⟩
      · simp only [if_neg (show ¬ (_ ∨ _) from hs)]
        exact ⟨fun h => absurd h hs, fun _ => rfl, rfl, rfl, by rw [if_neg hq'], hconf,
          fun h => absurd h hs, fun _ => htemp⟩

/-- The dimensions captured are kept apart, those of the images are swapped for a
quarter turn, and nothing else of the images changes. -/
structure Prepared (cnt cnt' : Context) : Prop where
  degrees : cnt'.rotateData.degrees = (rotateDegrees cnt).rotateData.degrees
  capWidth : cnt'.rotateData.capWidth = cnt.imgs.width
  capHeight : cnt'.rotateData.capHeight = cnt.imgs.height
  imgs : cnt'.imgs = if cnt'.rotateData.degrees = 90 ∨ cnt'.rotateData.degrees = 270 then
    { cnt.imgs with width := cnt.imgs.height, height := cnt.imgs.width } else cnt.imgs
  conf : ∃ deg, cnt'.conf = { cnt.conf with rotateDeg := deg }

theorem rotateInit_prepared {cnt : Context} (ht : cnt.imgs.type = paletteYuv420p) :
    Prepared cnt (rotateInit cnt) := by
  have hs := rotateInit_staged cnt
  have hdeg := hs.degrees (.inl ht)
  exact ⟨hdeg, hs.capWidth, hs.capHeight, by rw [hdeg]; exact hs.imgs, hs.conf⟩

/-! ## Samples -/

/-- A plane of a block: where it starts, its width and its height. -/
structure Plane where
  start : Ptr Buf
  W : Nat
  H : Nat

def planes (map : Ptr Buf) (w h : Nat) : List Plane :=
  [⟨map, w, h⟩, ⟨uPlane map w h, w / 2, h / 2⟩, ⟨vPlane map w h, w / 2, h / 2⟩]

/-- The sample of column `x` and row `y` of a plane goes to index `site x y`,
and that is a permutation of the plane's indices. -/
structure Moves (before after : Ptr Buf → UInt8) (p : Plane) (site : Nat → Nat → Nat) : Prop where
  sample : ∀ x y, x < p.W → y < p.H → after (p.start + site x y) = before (p.start + (y * p.W + x))
  exact : Set.BijOn (fun i => site (i % p.W) (i / p.W)) (Set.Iio (p.W * p.H)) (Set.Iio (p.W * p.H))

/-- The context of a camera that captures `w` by `h` YUV420P frames turned by `deg` degrees. -/
def turning (cnt : Context) (deg : Int) (w h : Nat) : Context :=
  { cnt with
    imgs := { cnt.imgs with type := paletteYuv420p }
    rotateData := { cnt.rotateData with degrees := deg, capWidth := w, capHeight := h } }

section Samples
variable (cnt : Context) {w h : Nat} (hw : w % 2 = 0) (hh : h % 2 = 0) {map : Ptr Buf}
  (hb : map.base ≠ .tempBuf) (m : Mem Buf)
include hw hh hb

theorem turning_frame {deg : Int} {r : Nat → Nat → (Nat → UInt8) → Nat → UInt8}
    (hr : deg = 90 ∧ r = rot90 ∨ deg = 270 ∧ r = rot270) :
    (getFrame map w h (rotateMap (turning cnt deg w h) map m).2.byte).Same w h
      (turned r w h (getFrame map w h m.byte)) := by
  have htype : (turning cnt deg w h).imgs.type = paletteYuv420p := rfl
  obtain ⟨_, hp⟩ := rotateMap_quarter hb hw hh htype rfl rfl rfl hr m
  refine ⟨fun k hk => ?_, fun k hk => ?_, fun k hk => ?_⟩
  · exact (hp (map + k) hb).trans (putFrame_y hk)
  · exact (hp (uPlane map w h + k) hb).trans (putFrame_u hk)
  · exact (hp (vPlane map w h + k) hb).trans (putFrame_v hk)

/-- From the planes of the turned frame to its samples. -/
theorem moves_planes {deg : Int} {r : Nat → Nat → (Nat → UInt8) → Nat → UInt8}
    (hr : deg = 90 ∧ r = rot90 ∨ deg = 270 ∧ r = rot270) (site : Nat → Nat → Nat → Nat → Nat)
    (hbij : ∀ W H, Set.BijOn (fun i => site W H (i % W) (i / W)) (Set.Iio (W * H)) (Set.Iio (W * H)))
    (hsite : ∀ W H (p : Nat → UInt8) x y, x < W → y < H →
      site W H x y < W * H ∧ r W H p (site W H x y) = p (y * W + x)) :
    ∀ p ∈ planes map w h,
      Moves m.byte (rotateMap (turning cnt deg w h) map m).2.byte p (site p.W p.H) := by
  have hf := turning_frame cnt hw hh hb m hr
  obtain ⟨h4, _, _⟩ := frame_size hw hh
  intro p hp
  refine ⟨fun x y hx hy => ?_, hbij p.W p.H⟩
  simp only [planes, List.mem_cons, List.not_mem_nil, or_false] at hp
  obtain rfl | rfl | rfl := hp
  · obtain ⟨hlt, he⟩ := hsite w h (getFrame map w h m.byte).y x y hx hy
    exact (hf.y _ hlt).trans he
  · obtain ⟨hlt, he⟩ := hsite (w / 2) (h / 2) (getFrame map w h m.byte).u x y hx hy
    exact (hf.u _ (h4 ▸ hlt)).trans he
  · obtain ⟨hlt, he⟩ := hsite (w / 2) (h / 2) (getFrame map w h m.byte).v x y hx hy
    exact (hf.v _ (h4 ▸ hlt)).trans he

end Samples

/-- Turning back a frame that is the turned one. -/
theorem turned_undone {w h : Nat} (hw : w % 2 = 0) (hh : h % 2 = 0) {F G : Frame}
    (hs : G.Same w h (turned rot90 w h F)) : (turned rot270 h w G).Same w h F := by
  obtain ⟨h4, _, _⟩ := frame_size hw hh
  have hplane : ∀ {W H : Nat} {p q : Nat → UInt8}, (∀ k, k < W * H → q k = rot90 W H p k) →
      ∀ k, k < W * H → rot270 H W q k = p k := by
    intro W H p q hq k hk
    rw [rot270_congr (fun j hj => hq j (by rwa [Nat.mul_comm])) (by rwa [Nat.mul_comm]),
      rot270_rot90 p hk]
  refine ⟨fun k hk => ?_, fun k hk => ?_, fun k hk => ?_⟩
  · exact hplane hs.y k hk
  · exact hplane (fun j hj => hs.u j (h4 ▸ hj)) k (h4.symm ▸ hk)
  · exact hplane (fun j hj => hs.v j (h4 ▸ hj)) k (h4.symm ▸ hk)

/-- **The quarter turns of `rotate_map`.** 90 degrees move the sample of column
`x` and row `y` of every plane to row `x`, column `H - 1 - y`; 270 degrees to
row `W - 1 - x`, column `y`; and 270 degrees at the swapped dimensions undo 90. -/
theorem rotate_map_quarters (cnt cnt' : Context) {w h : Nat} (hw : w % 2 = 0) (hh : h % 2 = 0)
    {map : Ptr Buf} (hb : map.base ≠ .tempBuf) (m : Mem Buf) :
    (∀ p ∈ planes map w h, Moves m.byte (rotateMap (turning cnt 90 w h) map m).2.byte p
      fun x y => x * p.H + (p.H - 1 - y)) ∧
    (∀ p ∈ planes map w h, Moves m.byte (rotateMap (turning cnt 270 w h) map m).2.byte p
      fun x y => (p.W - 1 - x) * p.H + y) ∧
    (∀ i, i < w * h * 3 / 2 →
      (rotateMap (turning cnt' 270 h w) map
        (rotateMap (turning cnt 90 w h) map m).2).2.byte (map + i) = m.byte (map + i)) := by
  refine ⟨?_, ?_, fun i hi => ?_⟩
  · refine moves_planes cnt hw hh hb m (.inl ⟨rfl, rfl⟩) (fun _ H x y => x * H + (H - 1 - y))
      (fun W H => turned90_bijOn) fun W H p x y hx hy => ?_
    rw [← turned90_site hx]
    exact ⟨turned90_lt (site_lt hx hy), rot90_turned90 p (site_lt hx hy)⟩
  · refine moves_planes cnt hw hh hb m (.inr ⟨rfl, rfl⟩)
      (fun W H x y => (W - 1 - x) * H + y) (fun W H => turned270_bijOn)
      fun W H p x y hx hy => ?_
    rw [← turned270_site hx]
    exact ⟨turned270_lt (site_lt hx hy), rot270_turned270 p (site_lt hx hy)⟩
  · obtain ⟨h4, _, h6⟩ := frame_size hw hh
    have h1 := turning_frame cnt hw hh hb m (.inl ⟨rfl, rfl⟩)
    have h2 := turning_frame cnt' hh hw hb (rotateMap (turning cnt 90 w h) map m).2
      (.inr ⟨rfl, rfl⟩)
    rw [getFrame_swap] at h1 h2
    have hF := h2.swap.trans (turned_undone hw hh h1)
    exact getFrame_bytes.trans ((hF.bytes (by omega)).trans getFrame_bytes.symm)

theorem rotate_map_quarters_wide :
    (∀ p ∈ planes imageVirgin 4 2, Moves (fun p => UInt8.ofInt p.off)
      (rotateMap (turning Context.zero 90 4 2) imageVirgin ⟨fun p => UInt8.ofInt p.off, []⟩).2.byte p
      fun x y => x * p.H + (p.H - 1 - y)) ∧
    (∀ p ∈ planes imageVirgin 4 2, Moves (fun p => UInt8.ofInt p.off)
      (rotateMap (turning Context.zero 270 4 2) imageVirgin ⟨fun p => UInt8.ofInt p.off, []⟩).2.byte p
      fun x y => (p.W - 1 - x) * p.H + y) ∧
    (∀ i, i < 4 * 2 * 3 / 2 →
      (rotateMap (turning Context.zero 270 2 4) imageVirgin
        (rotateMap (turning Context.zero 90 4 2) imageVirgin
          ⟨fun p => UInt8.ofInt p.off, []⟩).2).2.byte (imageVirgin + i) =
        UInt8.ofInt (imageVirgin + i).off) :=
  rotate_map_quarters Context.zero Context.zero (w := 4) (h := 2) (by decide) (by decide)
    (show imageVirgin.base ≠ .tempBuf by decide) ⟨fun p => UInt8.ofInt p.off, []⟩

end SmartPrince.Common.RotateSoundness

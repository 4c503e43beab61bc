import Mathlib.Algebra.BigOperators.Intervals
import SmartPrince.Lib.Plane
import SmartPrince.Common.Yuv420p
import SmartPrince.Common.VideoConv

/-! # RGB24 to planar 4:2:0

`conv_rgb24toyuv420p` goes over the frame once, pixel by pixel. A pixel's luma
byte is its own; its chroma goes as one of four summands into the bytes of its
cell, which start at zero. So after `n` pixels a chroma byte is the sum of the
contributions of those pixels among the first `n` that lie in its cell. -/
namespace SmartPrince.Common.Rgb24Soundness
open SmartPrince.Lib.Loop SmartPrince.Lib.Memory SmartPrince.Lib.Plane
open SmartPrince.Common.VideoConv SmartPrince.Common.Yuv420p

variable {ι : Type} [DecidableEq ι]

/-! ## The walk -/

/-- The chroma cell of column `x` and row `y`. -/
def cellAt (w x y : Nat) : Nat := y / 2 * (w / 2) + x / 2

/-- A formula at pixel `k` of a frame whose bytes are in the order b, g, r. -/
def atPixel {α : Type} (formula : UInt8 → UInt8 → UInt8 → α) (src : Nat → UInt8) (k : Nat) : α :=
  formula (src (3 * k + 2)) (src (3 * k + 1)) (src (3 * k))

/-- The luma byte of pixel `k`. -/
def rgbLuma (map capMap : Ptr ι) (k : Nat) (m : Mem ι) : Mem ι :=
  let (r, m) := m.load (capMap + (3 * k + 2))
  let (g, m) := m.load (capMap + (3 * k + 1))
  let (b, m) := m.load (capMap + 3 * k)
  m.store (map + k) (UInt8.ofInt (lumaOf r g b))

theorem rgbLuma_byte (map capMap : Ptr ι) (k : Nat) (m : Mem ι) :
    (rgbLuma map capMap k m).byte = Function.update m.byte (map + k)
      ((fun k => UInt8.ofInt (atPixel lumaOf (fun i => m.byte (capMap + i)) k)) k) := rfl

/-- Pixel `x` of row `y`. -/
def rgbTurn (map capMap : Ptr ι) (w h x y : Nat) (m : Mem ι) : Mem ι :=
  let src := fun i => m.byte (capMap + i)
  addTo (vPlane map w h + cellAt w x y) (atPixel vOf src (y * w + x))
    (addTo (uPlane map w h + cellAt w x y) (atPixel uOf src (y * w + x))
      (rgbLuma map capMap (y * w + x) m))

/-- The cursors at pair `j` of row `y`. -/
def rgbCursor (map capMap : Ptr ι) (w h y j : Nat) : RgbCursor ι where
  y := map + (y * w + 2 * j)
  u := uPlane map w h + cellAt w (2 * j) y
  v := vPlane map w h + cellAt w (2 * j) y
  r := capMap + (3 * (y * w + 2 * j) + 2)
  g := capMap + (3 * (y * w + 2 * j) + 1)
  b := capMap + 3 * (y * w + 2 * j)

theorem rgbPair_walk (map capMap : Ptr ι) (w h y j : Nat) (m : Mem ι) :
    rgbPair j (rgbCursor map capMap w h y j, m) = (rgbCursor map capMap w h y (j + 1),
      rgbTurn map capMap w h (2 * j + 1) y (rgbTurn map capMap w h (2 * j) y m)) := by
  have hcell : cellAt w (2 * j + 1) y = cellAt w (2 * j) y := by
    simp only [cellAt, show (2 * j + 1) / 2 = 2 * j / 2 by omega]
  have hnext : cellAt w (2 * (j + 1)) y = cellAt w (2 * j) y + 1 := by
    simp only [cellAt]; omega
  have hk' : 3 * (y * w + 2 * j) + 6 = 3 * (y * w + 2 * (j + 1)) := by ring
  refine Prod.ext ?_ ?_
  · simp only [rgbPair, rgbPixel, rgbCursor, hnext, ← hk', Ptr.add_assoc, RgbCursor.mk.injEq,
      and_true]
    congr 1
  · simp only [rgbPair, rgbPixel, rgbCursor, rgbTurn, hcell, Ptr.add_assoc]
    congr 1

omit [DecidableEq ι] in
/-- The rewind after even rows leaves the cursors at the next row's start. -/
theorem rgbCursor_next (map capMap : Ptr ι) {w : Nat} (hw : w % 2 = 0) (h y : Nat) :
    (if y % 2 = 0 then
      { rgbCursor map capMap w h y (w / 2) with
        u := (rgbCursor map capMap w h y (w / 2)).u - w / 2
        v := (rgbCursor map capMap w h y (w / 2)).v - w / 2 }
    else rgbCursor map capMap w h y (w / 2)) = rgbCursor map capMap w h (y + 1) 0 := by
  have h2 : 2 * (w / 2) = w := by omega
  have hk : y * w + w = (y + 1) * w := by ring
  simp only [rgbCursor, cellAt, h2, hk, Nat.mul_zero, Nat.add_zero, Nat.zero_div]
  by_cases hy : y % 2 = 0
  · simp only [if_pos hy, Ptr.add_sub _ (Nat.le_add_left _ _), Nat.add_sub_cancel,
      show (y + 1) / 2 = y / 2 by omega]
  · simp only [if_neg hy, show (y + 1) / 2 = y / 2 + 1 by omega, Nat.add_one_mul]

theorem rgb_walk (map capMap : Ptr ι) {w : Nat} (hw : w % 2 = 0) (h : Nat) (m : Mem ι) :
    (loop h (rgbRow w) (rgbCursor map capMap w h 0 0, m)).2 =
      loop (h * w) (fun k => rgbTurn map capMap w h (k % w) (k / w)) m := by
  rw [loop_walk (fun y => rgbCursor map capMap w h y 0)
    (fun y => loop w fun x => rgbTurn map capMap w h x y) rfl]
  · exact loop_nest h w (fun y x => rgbTurn map capMap w h x y) m
  · intro y m _
    have hpairs : (w + 1) / 2 = w / 2 := by omega
    have hturns := loop_pairs (w / 2) (fun x => rgbTurn map capMap w h x y) m
    rw [show 2 * (w / 2) = w by omega] at hturns
    rw [← rgbCursor_next map capMap hw, rgbRow, hpairs, loop_walk (rgbCursor map capMap w h y)
      (fun j m => rgbTurn map capMap w h (2 * j + 1) y (rgbTurn map capMap w h (2 * j) y m)) rfl
      fun j m _ => rgbPair_walk map capMap w h y j m, hturns]
    by_cases hy : y % 2 = 0
    · simp only [if_pos hy]
    · simp only [if_neg hy]

/-! ## What it computes -/

/-- The sum of the contributions that the first `n` pixels make to cell `c`. -/
def cellSum (part : Nat → Int) (w n c : Nat) : Int :=
  ∑ k ∈ Finset.range n, if cellAt w (k % w) (k / w) = c then part k else 0

def rgbFrame (w h : Nat) (src : Nat → UInt8) : Frame where
  y k := UInt8.ofInt (atPixel lumaOf src k)
  u c := UInt8.ofInt (cellSum (atPixel uOf src) w (w * h) c)
  v c := UInt8.ofInt (cellSum (atPixel vOf src) w (w * h) c)

theorem ofInt_toNat_add (a x : Int) :
    UInt8.ofInt ((UInt8.ofInt a).toNat + x) = UInt8.ofInt (a + x) := by
  apply UInt8.toNat_inj.mp
  simp only [UInt8.ofInt, UInt8.toNat_ofNat']
  omega

/-- Pixel `n` adds to its own cell only. -/
theorem cellSum_succ (part : Nat → Int) (w n : Nat) :
    (fun c => UInt8.ofInt (cellSum part w (n + 1) c)) =
      Function.update (fun c => UInt8.ofInt (cellSum part w n c)) (cellAt w (n % w) (n / w))
        (UInt8.ofInt ((UInt8.ofInt (cellSum part w n (cellAt w (n % w) (n / w)))).toNat + part n)) := by
  funext c
  rw [cellSum, Finset.sum_range_succ]
  by_cases hc : c = cellAt w (n % w) (n / w)
  · subst hc
    rw [Function.update_self, if_pos rfl, ofInt_toNat_add]
    rfl
  · rw [Function.update_of_ne hc, if_neg (Ne.symm hc), Int.add_zero]
    rfl

theorem cellAt_lt {w h x y : Nat} (hw : w % 2 = 0) (hh : h % 2 = 0) (hx : x < w) (hy : y < h) :
    cellAt w x y < w * h / 4 := by
  rw [← (frame_size hw hh).1]
  exact site_lt (by omega) (by omega)

/-- The first `n` pixels of the frame `src` were converted, from memory `f`. -/
structure Summed (map capMap : Ptr ι) (w h : Nat) (f : Ptr ι → UInt8) (n : Nat) (m : Mem ι) :
    Prop where
  byte : m.byte = patch map n (fun k => UInt8.ofInt (atPixel lumaOf (fun i => f (capMap + i)) k))
    (patch (uPlane map w h) (w * h / 4)
      (fun c => UInt8.ofInt (cellSum (atPixel uOf fun i => f (capMap + i)) w n c))
      (patch (vPlane map w h) (w * h / 4)
        (fun c => UInt8.ofInt (cellSum (atPixel vOf fun i => f (capMap + i)) w n c)) f))

/-- After `n` pixels: their luma bytes, and all that lies outside the frame's memory. -/
structure Lumas (map capMap : Ptr ι) (f : Ptr ι → UInt8) (n : Nat) (m : Mem ι) : Prop where
  own : ∀ k, k < n →
    m.byte (map + k) = UInt8.ofInt (atPixel lumaOf (fun i => f (capMap + i)) k)
  others : ∀ q : Ptr ι, q.base ≠ map.base → m.byte q = f q

section Result
variable {map capMap : Ptr ι} (hb : capMap.base ≠ map.base) {w h : Nat} {f : Ptr ι → UInt8}
include hb

omit hb in
/-- `*p += x` on a byte of the U plane. -/
theorem addTo_u {n c : Nat} {fy fu : Nat → UInt8} {g : Ptr ι → UInt8} (hn : n ≤ w * h)
    (hc : c < w * h / 4) {x : Int} {m : Mem ι}
    (hm : m.byte = patch map n fy (patch (uPlane map w h) (w * h / 4) fu g)) :
    (addTo (uPlane map w h + c) x m).byte = patch map n fy (patch (uPlane map w h) (w * h / 4)
      (Function.update fu c (UInt8.ofInt ((fu c).toNat + x))) g) := by
  have hout : ¬ Span map n (uPlane map w h + c) := by rw [uPlane_add, span_add]; omega
  simp only [addTo, Mem.load, Mem.store_byte, hm]
  rw [patch_out hout, patch_in hc, update_patch_out hout, update_patch_in hc]

omit hb in
/-- The same on a byte of the V plane. -/
theorem addTo_v {n c : Nat} {fy fu fv : Nat → UInt8} {g : Ptr ι → UInt8} (hn : n ≤ w * h)
    (hc : c < w * h / 4) {x : Int} {m : Mem ι}
    (hm : m.byte = patch map n fy (patch (uPlane map w h) (w * h / 4) fu
      (patch (vPlane map w h) (w * h / 4) fv g))) :
    (addTo (vPlane map w h + c) x m).byte = patch map n fy (patch (uPlane map w h) (w * h / 4) fu
      (patch (vPlane map w h) (w * h / 4)
        (Function.update fv c (UInt8.ofInt ((fv c).toNat + x))) g)) := by
  have hy : ¬ Span map n (vPlane map w h + c) := by rw [vPlane_add, span_add]; omega
  have hu : ¬ Span (uPlane map w h) (w * h / 4) (vPlane map w h + c) := by
    rw [vPlane_add, Nat.add_assoc, ← uPlane_add, span_add]; omega
  simp only [addTo, Mem.load, Mem.store_byte, hm]
  rw [patch_out hy, patch_out hu, patch_in hc, update_patch_out hy, update_patch_out hu,
    update_patch_in hc]

theorem rgbTurn_summed (hw : w % 2 = 0) (hh : h % 2 = 0) {n : Nat} (hn : n < w * h) {m : Mem ι}
    (hm : Summed map capMap w h f n m) :
    Summed map capMap w h f (n + 1) (rgbTurn map capMap w h (n % w) (n / w) m) := by
  have hpos : 0 < w := Nat.pos_of_ne_zero fun h0 => by simp [h0] at hn
  have hc : cellAt w (n % w) (n / w) < w * h / 4 :=
    cellAt_lt hw hh (Nat.mod_lt _ hpos) ((Nat.div_lt_iff_lt_mul hpos).mpr (by rwa [Nat.mul_comm]))
  have hin : ∀ i : Nat, m.byte (capMap + i) = f (capMap + i) := fun i => by
    have hbi : (capMap + i).base ≠ map.base := hb
    rw [hm.byte, patch_base hbi, patch_base (by exact hb), patch_base (by exact hb)]
  have hm1 := rgbLuma_byte map capMap n m
  simp only [hin] at hm1
  rw [hm.byte, update_patch] at hm1
  have hu := addTo_u (w := w) (h := h) (x := atPixel uOf (fun i => f (capMap + i)) n)
    (by omega) hc hm1
  have hv := addTo_v (w := w) (h := h) (x := atPixel vOf (fun i => f (capMap + i)) n)
    (by omega) hc hu
  refine ⟨?_⟩
  simp only [cellSum_succ, rgbTurn, hin, Nat.div_add_mod']
  exact hv

omit hb in
/-- The two planes are cleared, then every pixel gets its turn. -/
theorem convRgb24_walk (hw : w % 2 = 0) (m : Mem ι) :
    convRgb24toyuv420p map capMap w h m =
      loop (h * w) (fun k => rgbTurn map capMap w h (k % w) (k / w))
        ((m.memset (uPlane map w h) 0 (w * h / 4)).memset (vPlane map w h) 0 (w * h / 4)) := by
  rw [← rgb_walk map capMap hw]
  simp [convRgb24toyuv420p, rgbCursor, cellAt, uPlane, vPlane, Ptr.add_assoc]

omit hb in
/-- A byte that is neither of the two cells `*p += x` goes to. -/
theorem rgbTurn_byte (map capMap : Ptr ι) (w h x y : Nat) (m : Mem ι) {q : Ptr ι}
    (hu : q ≠ uPlane map w h + cellAt w x y) (hv : q ≠ vPlane map w h + cellAt w x y) :
    (rgbTurn map capMap w h x y m).byte q = (rgbLuma map capMap (y * w + x) m).byte q := by
  simp only [rgbTurn, addTo, Mem.load, Mem.store_byte]
  rw [Function.update_of_ne hv, Function.update_of_ne hu]

theorem rgbTurn_lumas {n : Nat} (hn : n < w * h) {m : Mem ι} (hm : Lumas map capMap f n m) :
    Lumas map capMap f (n + 1) (rgbTurn map capMap w h (n % w) (n / w) m) := by
  have hsrc : (fun i : Nat => m.byte (capMap + i)) = fun i => f (capMap + i) :=
    funext fun i => hm.others _ hb
  have hluma : ∀ q : Ptr ι, (rgbLuma map capMap (n / w * w + n % w) m).byte q =
      Function.update m.byte (map + n)
        (UInt8.ofInt (atPixel lumaOf (fun i => f (capMap + i)) n)) q := fun q => by
    rw [Nat.div_add_mod', rgbLuma_byte, hsrc]
  refine ⟨fun k hk => ?_, fun q hq => ?_⟩
  · rw [rgbTurn_byte, hluma]
    · rcases Nat.lt_succ_iff_lt_or_eq.mp hk with hk | rfl
      · rw [Function.update_of_ne (fun hc => by rw [Ptr.add_right_inj] at hc; omega), hm.own k hk]
      · rw [Function.update_self]
    · rw [uPlane_add, Ne, Ptr.add_right_inj]
      omega
    · rw [vPlane_add, Ne, Ptr.add_right_inj]
      omega
  · rw [rgbTurn_byte, hluma, Function.update_of_ne, hm.others q hq]
    · exact fun hc => hq (hc ▸ rfl)
    · exact fun hc => hq (hc ▸ rfl)
    · exact fun hc => hq (hc ▸ rfl)

/-- The luma bytes are the pixels' own, for an odd number of rows too. -/
theorem convRgb24_luma (hw : w % 2 = 0) (m : Mem ι) {k : Nat} (hk : k < w * h) :
    (convRgb24toyuv420p map capMap w h m).byte (map + k) =
      UInt8.ofInt (atPixel lumaOf (fun i => m.byte (capMap + i)) k) := by
  have h0 : Lumas map capMap m.byte 0
      ((m.memset (uPlane map w h) 0 (w * h / 4)).memset (vPlane map w h) 0 (w * h / 4)) := by
    refine ⟨fun k hk => absurd hk (Nat.not_lt_zero k), fun q hq => ?_⟩
    rw [Mem.memset_byte, Mem.memset_byte, patch_base (by exact hq), patch_base (by exact hq)]
  have hrun := @loop_inv _ (Lumas map capMap m.byte) (h * w)
    (fun k => rgbTurn map capMap w h (k % w) (k / w)) _ h0 fun n t hn ht =>
      rgbTurn_lumas hb (by rwa [Nat.mul_comm w]) ht
  rw [convRgb24_walk hw]
  exact hrun.own k (by rwa [Nat.mul_comm])

/-- **The frame of an RGB24 frame lies at `map`.** -/
theorem convRgb24_byte (hw : w % 2 = 0) (hh : h % 2 = 0) (m : Mem ι) :
    (convRgb24toyuv420p map capMap w h m).byte =
      putFrame map w h (rgbFrame w h fun i => m.byte (capMap + i)) m.byte := by
  have h0 : Summed map capMap w h m.byte 0
      ((m.memset (uPlane map w h) 0 (w * h / 4)).memset (vPlane map w h) 0 (w * h / 4)) := by
    refine ⟨?_⟩
    rw [Mem.memset_byte, Mem.memset_byte, patch_comm fun p hv hu => u_not_v hu hv]
    simp only [patch_zero, cellSum, Finset.range_zero, Finset.sum_empty]
    rfl
  have hrun := @loop_inv _ (Summed map capMap w h m.byte) (h * w)
    (fun k => rgbTurn map capMap w h (k % w) (k / w)) _ h0 fun k t hk ht =>
      rgbTurn_summed hb hw hh (by rwa [Nat.mul_comm w]) ht
  rw [convRgb24_walk hw, hrun.byte, Nat.mul_comm h]
  rfl

end Result

/-! ## What it touches -/

/-- The accesses of pixel `k`, newest first. -/
def rgbAccesses (map capMap : Ptr ι) (w h k : Nat) : List (Access ι) :=
  let u := uPlane map w h + cellAt w (k % w) (k / w)
  let v := vPlane map w h + cellAt w (k % w) (k / w)
  [.store v, .load v, .store u, .load u, .store (map + k),
    .load (capMap + 3 * k), .load (capMap + (3 * k + 1)), .load (capMap + (3 * k + 2))]

theorem rgbTurn_log (map capMap : Ptr ι) (w h k : Nat) (m : Mem ι) :
    (rgbTurn map capMap w h (k % w) (k / w) m).log = rgbAccesses map capMap w h k ++ m.log := by
  simp only [rgbTurn, rgbLuma, addTo, Mem.load, Mem.store_log, Nat.div_add_mod', rgbAccesses]
  rfl

theorem convRgb24_log (map capMap : Ptr ι) {w : Nat} (hw : w % 2 = 0) (h : Nat) (m : Mem ι) :
    (convRgb24toyuv420p map capMap w h m).log = accesses (rgbAccesses map capMap w h) (h * w) ++
      (accesses (fun k => [.store (vPlane map w h + k)]) (w * h / 4) ++
        (accesses (fun k => [.store (uPlane map w h + k)]) (w * h / 4) ++ m.log)) := by
  rw [convRgb24_walk hw, loop_log fun k m _ => rgbTurn_log map capMap w h k m, Mem.memset_log,
    Mem.memset_log]

/-- It touches the frame it writes and the frame it reads. -/
theorem convRgb24_touches {map capMap : Ptr ι} {w h : Nat} (hw : w % 2 = 0) (hh : h % 2 = 0)
    {m : Mem ι} {a : Access ι} (ha : a ∈ (convRgb24toyuv420p map capMap w h m).log) :
    a ∈ m.log ∨ Span map (w * h + w * h / 4 + w * h / 4) a.ptr ∨ Span capMap (3 * (w * h)) a.ptr := by
  rw [convRgb24_log map capMap hw] at ha
  simp only [List.mem_append, mem_accesses] at ha
  rcases ha with ⟨k, hk, ha⟩ | ⟨k, hk, ha⟩ | ⟨k, hk, ha⟩ | ha
  · have hk' : k < w * h := by rwa [Nat.mul_comm]
    have hpos : 0 < w := Nat.pos_of_ne_zero fun h0 => by simp [h0] at hk'
    have hc : cellAt w (k % w) (k / w) < w * h / 4 :=
      cellAt_lt hw hh (Nat.mod_lt _ hpos) ((Nat.div_lt_iff_lt_mul hpos).mpr hk)
    simp only [rgbAccesses, List.mem_cons, List.not_mem_nil, or_false] at ha
    rcases ha with rfl | rfl | rfl | rfl | rfl | rfl | rfl | rfl
    · exact .inr (.inl (span_block.mpr (.inr (.inr (span_add.mpr hc)))))
    · exact .inr (.inl (span_block.mpr (.inr (.inr (span_add.mpr hc)))))
    · exact .inr (.inl (span_block.mpr (.inr (.inl (span_add.mpr hc)))))
    · exact .inr (.inl (span_block.mpr (.inr (.inl (span_add.mpr hc)))))
    · exact .inr (.inl (span_block.mpr (.inl (span_add.mpr hk'))))
    · exact .inr (.inr (span_add.mpr (by omega)))
    · exact .inr (.inr (span_add.mpr (by omega)))
    · exact .inr (.inr (span_add.mpr (by omega)))
  · rw [List.mem_singleton] at ha
    exact .inr (.inl (span_block.mpr (.inr (.inr (ha ▸ span_add.mpr hk)))))
  · rw [List.mem_singleton] at ha
    exact .inr (.inl (span_block.mpr (.inr (.inl (ha ▸ span_add.mpr hk)))))
  · exact .inl ha

end SmartPrince.Common.Rgb24Soundness

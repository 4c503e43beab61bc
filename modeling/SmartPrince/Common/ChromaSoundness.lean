import SmartPrince.Common.Rgb24Soundness

/-! # The chroma of RGB24 frames, cell by cell

Two passes over a chroma row add four contributions to each of its bytes. The
pixels of a cell are numbered in the order in which they are added, so that a
byte after `n` of them is a sum over the first `n`. -/
namespace SmartPrince.Common.ChromaSoundness
open SmartPrince.Lib.Memory SmartPrince.Lib.Plane SmartPrince.Common.VideoConv
open SmartPrince.Common.Yuv420p SmartPrince.Common.Rgb24Soundness

variable {ι : Type} [DecidableEq ι]

/-! ## Cells and their pixels -/

/-- Pixel `n` of cell `(i, j)`: the two of the upper row, then those below them. -/
def cellPixel (w i j n : Nat) : Nat := (2 * j + n / 2) * w + (2 * i + n % 2)

/-- What the first `n` pixels of a cell contribute. -/
def blockSum (formula : UInt8 → UInt8 → UInt8 → Int) (src : Nat → UInt8) (w i j n : Nat) : Int :=
  ∑ k ∈ Finset.range n, atPixel formula src (cellPixel w i j k)

variable {w h i j : Nat}

theorem cellAt_eq_iff {x y : Nat} (hw : w % 2 = 0) (hx : x < w) (hi : i < w / 2) :
    cellAt w x y = j * (w / 2) + i ↔ x / 2 = i ∧ y / 2 = j := by
  have hx2 : x / 2 < w / 2 := by omega
  constructor
  · intro he
    rw [cellAt] at he
    have hmod := congrArg (· % (w / 2)) he
    have hdiv := congrArg (· / (w / 2)) he
    simp only [site_mod hx2, site_mod hi] at hmod
    simp only [site_div hx2, site_div hi] at hdiv
    exact ⟨hmod, hdiv⟩
  · rintro ⟨rfl, rfl⟩
    rfl

section Cell
variable (hw : w % 2 = 0) (hh : h % 2 = 0) (hi : i < w / 2) (hj : j < h / 2)
include hw hh hi hj

omit hw hh hj in
theorem cellPixel_injOn : Set.InjOn (cellPixel w i j) (Finset.range 4) := by
  intro n hn k hk he
  rw [Finset.coe_range, Set.mem_Iio] at hn hk
  have hx : ∀ n, 2 * i + n % 2 < w := fun n => by omega
  have hdiv := congrArg (· / w) he
  have hmod := congrArg (· % w) he
  simp only [cellPixel, site_div (hx _)] at hdiv
  simp only [cellPixel, site_mod (hx _)] at hmod
  omega

theorem mem_cell {k : Nat} : k < w * h ∧ cellAt w (k % w) (k / w) = j * (w / 2) + i ↔
    ∃ n, n < 4 ∧ cellPixel w i j n = k := by
  constructor
  · rintro ⟨hk, he⟩
    obtain ⟨x, y, hx, hy, rfl⟩ := exists_site hk
    rw [site_mod hx, site_div hx, cellAt_eq_iff hw hx hi] at he
    obtain ⟨rfl, rfl⟩ := he
    refine ⟨2 * (y % 2) + x % 2, by omega, ?_⟩
    rw [cellPixel, show 2 * (y / 2) + (2 * (y % 2) + x % 2) / 2 = y by omega,
      show 2 * (x / 2) + (2 * (y % 2) + x % 2) % 2 = x by omega]
  · rintro ⟨n, hn, rfl⟩
    have hx : 2 * i + n % 2 < w := by omega
    have hy : 2 * j + n / 2 < h := by omega
    refine ⟨site_lt hx hy, ?_⟩
    rw [cellPixel, site_mod hx, site_div hx, cellAt_eq_iff hw hx hi]
    omega

/-- **Each pixel belongs to one cell, each cell has four pixels.** -/
theorem cellSum_cell (part : Nat → Int) : cellSum part w (w * h) (j * (w / 2) + i) =
    ∑ n ∈ Finset.range 4, part (cellPixel w i j n) := by
  have himage : (Finset.range (w * h)).filter
      (fun k => cellAt w (k % w) (k / w) = j * (w / 2) + i) =
        (Finset.range 4).image (cellPixel w i j) := by
    ext k
    rw [Finset.mem_filter, Finset.mem_range, mem_cell hw hh hi hj, Finset.mem_image]
    simp only [Finset.mem_range]
  rw [cellSum, ← Finset.sum_filter, himage, Finset.sum_image (cellPixel_injOn hi)]

theorem cell_lt : j * (w / 2) + i < w * h / 4 := by
  rw [← (frame_size hw hh).1]
  exact site_lt hi hj

variable {map capMap : Ptr ι} (hb : capMap.base ≠ map.base) (m : Mem ι)
include hb

theorem convRgb24_u : (convRgb24toyuv420p map capMap w h m).byte
    (uPlane map w h + (j * (w / 2) + i)) =
      UInt8.ofInt (blockSum uOf (fun k => m.byte (capMap + k)) w i j 4) := by
  rw [convRgb24_byte hb hw hh, putFrame_u (cell_lt hw hh hi hj)]
  exact congrArg UInt8.ofInt (cellSum_cell hw hh hi hj _)

theorem convRgb24_v : (convRgb24toyuv420p map capMap w h m).byte
    (vPlane map w h + (j * (w / 2) + i)) =
      UInt8.ofInt (blockSum vOf (fun k => m.byte (capMap + k)) w i j 4) := by
  rw [convRgb24_byte hb hw hh, putFrame_v (cell_lt hw hh hi hj)]
  exact congrArg UInt8.ofInt (cellSum_cell hw hh hi hj _)

end Cell

/-! ## The whole conversion -/

/-- The contribution of column `x` and row `y`. -/
def shareAt (formula : UInt8 → UInt8 → UInt8 → Int) (src : Nat → UInt8) (w x y : Nat) : Int :=
  formula (src (3 * (y * w + x) + 2)) (src (3 * (y * w + x) + 1)) (src (3 * (y * w + x)))

/-- The four contributions of a cell. -/
def cellShares (formula : UInt8 → UInt8 → UInt8 → Int) (src : Nat → UInt8) (w i j : Nat) : Int :=
  shareAt formula src w (2 * i) (2 * j) + shareAt formula src w (2 * i + 1) (2 * j) +
    shareAt formula src w (2 * i) (2 * j + 1) + shareAt formula src w (2 * i + 1) (2 * j + 1)

theorem blockSum_shares (formula : UInt8 → UInt8 → UInt8 → Int) (src : Nat → UInt8) (w i j : Nat) :
    blockSum formula src w i j 4 = cellShares formula src w i j := by
  simp [blockSum, Finset.sum_range_succ, cellPixel, cellShares, shareAt, atPixel]

/-- From `m` to `m'` the RGB24 frame at `capMap` was converted to one at `map`. -/
structure Converted (map capMap : Ptr ι) (w h : Nat) (m m' : Mem ι) : Prop where
  loads : ∀ q, .load q ∈ m'.log → .load q ∈ m.log ∨ Span capMap (3 * (w * h)) q ∨
    Span (uPlane map w h) (w * h / 4) q ∨ Span (vPlane map w h) (w * h / 4) q
  lumaOnce : ∀ k, k < w * h →
    m'.log.count (.store (map + k)) = m.log.count (.store (map + k)) + 1
  luma : ∀ x y, x < w → y < h → m'.byte (map + (y * w + x)) =
    UInt8.ofInt (shareAt lumaOf (fun k => m.byte (capMap + k)) w x y)
  u : ∀ i j, i < w / 2 → j < h / 2 → m'.byte (uPlane map w h + (j * (w / 2) + i)) =
    UInt8.ofInt (cellShares uOf (fun k => m.byte (capMap + k)) w i j)
  v : ∀ i j, i < w / 2 → j < h / 2 → m'.byte (vPlane map w h + (j * (w / 2) + i)) =
    UInt8.ofInt (cellShares vOf (fun k => m.byte (capMap + k)) w i j)

theorem convRgb24_loads {map capMap : Ptr ι} (hw : w % 2 = 0) (hh : h % 2 = 0) {m : Mem ι}
    {q : Ptr ι} (hq : .load q ∈ (convRgb24toyuv420p map capMap w h m).log) :
    .load q ∈ m.log ∨ Span capMap (3 * (w * h)) q ∨
      Span (uPlane map w h) (w * h / 4) q ∨ Span (vPlane map w h) (w * h / 4) q := by
  rw [convRgb24_log map capMap hw] at hq
  simp only [List.mem_append, mem_accesses, List.mem_singleton, reduceCtorEq, and_false,
    exists_false, false_or] at hq
  rcases hq with ⟨k, hk, hq⟩ | hq
  · have hk' : k < w * h := by rwa [Nat.mul_comm]
    obtain ⟨x, y, hx, hy, rfl⟩ := exists_site hk'
    have hc := cellAt_lt hw hh hx hy
    simp only [rgbAccesses, site_mod hx, site_div hx, List.mem_cons, Access.load.injEq,
      reduceCtorEq, List.not_mem_nil, false_or, or_false] at hq
    rcases hq with rfl | rfl | rfl | rfl | rfl
    · exact .inr (.inr (.inr (span_add.mpr hc)))
    · exact .inr (.inr (.inl (span_add.mpr hc)))
    · exact .inr (.inl (span_add.mpr (by omega)))
    · exact .inr (.inl (span_add.mpr (by omega)))
    · exact .inr (.inl (span_add.mpr (by omega)))
  · exact .inl hq

/-- Pixel `n` stores luma byte `n` and otherwise chroma bytes. -/
theorem rgbAccesses_count (map capMap : Ptr ι) {k : Nat} (hk : k < w * h) (n : Nat) :
    (rgbAccesses map capMap w h n).count (.store (map + k)) = if n = k then 1 else 0 := by
  have hu : ∀ c, uPlane map w h + c ≠ map + k := fun c he => by
    rw [uPlane_add, Ptr.add_right_inj] at he
    omega
  have hv : ∀ c, vPlane map w h + c ≠ map + k := fun c he => by
    rw [vPlane_add, Ptr.add_right_inj] at he
    omega
  simp [rgbAccesses, List.count_cons, hu, hv]

theorem convRgb24_luma_once (map capMap : Ptr ι) (hw : w % 2 = 0) (m : Mem ι) {k : Nat}
    (hk : k < w * h) : (convRgb24toyuv420p map capMap w h m).log.count (.store (map + k)) =
      m.log.count (.store (map + k)) + 1 := by
  have hu : .store (map + k) ∉ accesses (fun c => [.store (uPlane map w h + c)]) (w * h / 4) := by
    simp only [mem_accesses, List.mem_singleton, Access.store.injEq, uPlane_add, Ptr.add_right_inj]
    omega
  have hv : .store (map + k) ∉ accesses (fun c => [.store (vPlane map w h + c)]) (w * h / 4) := by
    simp only [mem_accesses, List.mem_singleton, Access.store.injEq, vPlane_add, Ptr.add_right_inj]
    omega
  rw [convRgb24_log map capMap hw, List.count_append, List.count_append, List.count_append,
    count_accesses fun n _ => rgbAccesses_count map capMap hk n, List.count_eq_zero_of_not_mem hu,
    List.count_eq_zero_of_not_mem hv, if_pos (by rwa [Nat.mul_comm])]
  omega

section Result
variable (hw : w % 2 = 0) (hh : h % 2 = 0) {map capMap : Ptr ι} (hb : capMap.base ≠ map.base)
  (m : Mem ι)
include hw hh hb

theorem convRgb24_converted :
    Converted map capMap w h m (convRgb24toyuv420p map capMap w h m) where
  loads _ := convRgb24_loads hw hh
  lumaOnce _ := convRgb24_luma_once map capMap hw m
  luma x y hx hy := convRgb24_luma hb hw m (site_lt hx hy)
  u i j hi hj := by rw [convRgb24_u hw hh hi hj hb, blockSum_shares]
  v i j hi hj := by rw [convRgb24_v hw hh hi hj hb, blockSum_shares]

/-- What lies at `map` before plays no part. -/
theorem convRgb24_reads_frame {m₂ : Mem ι}
    (hsrc : ∀ k, k < 3 * (w * h) → m₂.byte (capMap + k) = m.byte (capMap + k)) {k : Nat}
    (hk : k < w * h + w * h / 4 + w * h / 4) :
    (convRgb24toyuv420p map capMap w h m₂).byte (map + k) =
      (convRgb24toyuv420p map capMap w h m).byte (map + k) := by
  have hpix : ∀ (formula : UInt8 → UInt8 → UInt8 → Int) n, n < w * h →
      atPixel formula (fun k => m₂.byte (capMap + k)) n =
        atPixel formula (fun k => m.byte (capMap + k)) n := fun formula n hn => by
    simp only [atPixel]
    rw [hsrc _ (by omega), hsrc _ (by omega), hsrc _ (by omega)]
  have hcell : ∀ (formula : UInt8 → UInt8 → UInt8 → Int) c,
      cellSum (atPixel formula fun k => m₂.byte (capMap + k)) w (w * h) c =
        cellSum (atPixel formula fun k => m.byte (capMap + k)) w (w * h) c := fun formula c =>
    Finset.sum_congr rfl fun n hn => by rw [hpix formula n (Finset.mem_range.mp hn)]
  have hsame : (rgbFrame w h fun k => m₂.byte (capMap + k)).Same w h
      (rgbFrame w h fun k => m.byte (capMap + k)) :=
    ⟨fun n hn => congrArg UInt8.ofInt (hpix lumaOf n hn),
      fun c _ => congrArg UInt8.ofInt (hcell uOf c), fun c _ => congrArg UInt8.ofInt (hcell vOf c)⟩
  rw [convRgb24_byte hb hw hh, convRgb24_byte hb hw hh, putFrame_bytes hk, putFrame_bytes hk,
    hsame.bytes hk]

end Result

/-- **Every pixel goes into one luma byte and one cell.** -/
theorem conv_rgb24_cells (hw : w % 2 = 0) (hh : h % 2 = 0) {map capMap : Ptr ι}
    (hb : capMap.base ≠ map.base) (m : Mem ι) :
    Converted map capMap w h m (convRgb24toyuv420p map capMap w h m) ∧
    ∀ m₂ : Mem ι, (∀ k, k < 3 * (w * h) → m₂.byte (capMap + k) = m.byte (capMap + k)) →
      ∀ k, k < w * h + w * h / 4 + w * h / 4 →
        (convRgb24toyuv420p map capMap w h m₂).byte (map + k) =
          (convRgb24toyuv420p map capMap w h m).byte (map + k) :=
  ⟨convRgb24_converted hw hh hb m, fun _ hsrc _ hk => convRgb24_reads_frame hw hh hb m hsrc hk⟩

/-- The frame that is read and the one that is written. -/
def capFrame : Ptr Bool := ⟨false, 0⟩

def outFrame : Ptr Bool := ⟨true, 0⟩

theorem conv_rgb24_cells_wide :
    Converted outFrame capFrame 4 2 ⟨fun p => UInt8.ofInt p.off, []⟩
      (convRgb24toyuv420p outFrame capFrame 4 2 ⟨fun p => UInt8.ofInt p.off, []⟩) ∧
    ∀ m₂ : Mem Bool,
      (∀ k, k < 3 * (4 * 2) → m₂.byte (capFrame + k) = UInt8.ofInt (capFrame + k).off) →
      ∀ k, k < 4 * 2 + 4 * 2 / 4 + 4 * 2 / 4 →
        (convRgb24toyuv420p outFrame capFrame 4 2 m₂).byte (outFrame + k) =
          (convRgb24toyuv420p outFrame capFrame 4 2 ⟨fun p => UInt8.ofInt p.off, []⟩).byte
            (outFrame + k) :=
  conv_rgb24_cells (w := 4) (h := 2) (by decide) (by decide)
    (show capFrame.base ≠ outFrame.base by decide) ⟨fun p => UInt8.ofInt p.off, []⟩

/-! ## Whether a byte can hold the sum -/

/-- How much redder than green and blue a pixel is, as `v` weighs it. -/
def redness (r g b : UInt8) : Int :=
  16941 * ((r.toNat : Int) - g.toNat) + 3277 * ((r.toNat : Int) - b.toNat)

/-- Rounded down to a multiple of `2^17`. -/
def floored (x : Int) : Int := x / 2 ^ 17 * 2 ^ 17

/-- The redness of the first `n` pixels of a cell. -/
def cellRedness (src : Nat → UInt8) (w i j n : Nat) : Int :=
  ∑ k ∈ Finset.range n, floored (atPixel redness src (cellPixel w i j k))

/-- The cell is nowhere too little red and not too red in all. -/
structure Mild (src : Nat → UInt8) (w i j : Nat) : Prop where
  low : ∀ n : Nat, n ≤ 4 → -(n * 2 ^ 22 : Int) ≤ cellRedness src w i j n
  high : cellRedness src w i j 4 < 2 ^ 24

/-- The chroma bytes of a cell are its sums, and none of the additions wrapped. -/
structure Exact (map capMap : Ptr ι) (w h i j : Nat) (m : Mem ι) : Prop where
  u : ∀ n, n ≤ 4 → 0 ≤ blockSum uOf (fun k => m.byte (capMap + k)) w i j n ∧
    blockSum uOf (fun k => m.byte (capMap + k)) w i j n ≤ 255
  v : ∀ n, n ≤ 4 → 0 ≤ blockSum vOf (fun k => m.byte (capMap + k)) w i j n ∧
    blockSum vOf (fun k => m.byte (capMap + k)) w i j n ≤ 255
  uByte : ((convRgb24toyuv420p map capMap w h m).byte
    (uPlane map w h + (j * (w / 2) + i))).toNat =
      blockSum uOf (fun k => m.byte (capMap + k)) w i j 4
  vByte : ((convRgb24toyuv420p map capMap w h m).byte
    (vPlane map w h + (j * (w / 2) + i))).toNat =
      blockSum vOf (fun k => m.byte (capMap + k)) w i j 4

theorem uOf_bounds (r g b : UInt8) : 4 ≤ uOf r g b ∧ uOf r g b ≤ 59 := by
  have hr := r.toNat_lt
  have hg := g.toNat_lt
  have hb := b.toNat_lt
  rw [uOf, Int.shiftRight_eq_div_pow]
  omega

theorem vOf_eq (r g b : UInt8) : vOf r g b = redness r g b / 2 ^ 17 + 32 := by
  rw [vOf, redness, Int.shiftRight_eq_div_pow]
  congr 2
  ring

theorem vOf_bounds (r g b : UInt8) : -8 ≤ vOf r g b ∧ vOf r g b ≤ 71 := by
  have hr := r.toNat_lt
  have hg := g.toNat_lt
  have hb := b.toNat_lt
  rw [vOf, Int.shiftRight_eq_div_pow]
  omega

theorem blockSum_bounds {formula : UInt8 → UInt8 → UInt8 → Int} {lo hi : Int}
    (hf : ∀ r g b, lo ≤ formula r g b ∧ formula r g b ≤ hi) (src : Nat → UInt8) (w i j n : Nat) :
    n * lo ≤ blockSum formula src w i j n ∧ blockSum formula src w i j n ≤ n * hi := by
  induction n with
  | zero => simp [blockSum]
  | succ n ih =>
    obtain ⟨hlo, hhi⟩ := hf (src (3 * cellPixel w i j n + 2)) (src (3 * cellPixel w i j n + 1))
      (src (3 * cellPixel w i j n))
    rw [blockSum] at ih
    rw [blockSum, Finset.sum_range_succ, atPixel, Nat.cast_succ, add_mul, add_mul]
    exact ⟨by omega, by omega⟩

/-- The V sum is the redness in units, above its middle. -/
theorem blockSum_v (src : Nat → UInt8) (w i j n : Nat) :
    2 ^ 17 * blockSum vOf src w i j n = cellRedness src w i j n + n * 2 ^ 22 := by
  induction n with
  | zero => rfl
  | succ n ih =>
    rw [blockSum, Finset.sum_range_succ, cellRedness, Finset.sum_range_succ]
    rw [blockSum, cellRedness] at ih
    rw [mul_add, ih]
    simp only [atPixel, vOf_eq, floored]
    push_cast
    ring

theorem toNat_ofInt {x : Int} (h0 : 0 ≤ x) (h1 : x ≤ 255) : ((UInt8.ofInt x).toNat : Int) = x := by
  simp only [UInt8.ofInt, UInt8.toNat_ofNat']
  omega

/-- **The bytes are exact when the cell is mild, and only then.** -/
theorem chroma_exact_iff (hw : w % 2 = 0) (hh : h % 2 = 0) (hi : i < w / 2) (hj : j < h / 2)
    {map capMap : Ptr ι} (hb : capMap.base ≠ map.base) (m : Mem ι) :
    Exact map capMap w h i j m ↔ Mild (fun k => m.byte (capMap + k)) w i j := by
  have hsum := blockSum_v (fun k => m.byte (capMap + k)) w i j
  constructor
  · intro he
    refine ⟨fun n hn => ?_, ?_⟩
    · have hn0 := (he.v n hn).1
      have hn := hsum n
      omega
    · have h4 := (he.v 4 le_rfl).2
      have h := hsum 4
      omega
  · intro hm
    have hu : ∀ n, n ≤ 4 → 0 ≤ blockSum uOf (fun k => m.byte (capMap + k)) w i j n ∧
        blockSum uOf (fun k => m.byte (capMap + k)) w i j n ≤ 255 := fun n hn => by
      obtain ⟨hlo, hhi⟩ := blockSum_bounds uOf_bounds (fun k => m.byte (capMap + k)) w i j n
      omega
    have hv : ∀ n, n ≤ 4 → 0 ≤ blockSum vOf (fun k => m.byte (capMap + k)) w i j n ∧
        blockSum vOf (fun k => m.byte (capMap + k)) w i j n ≤ 255 := fun n hn => by
      have hlow := hm.low n hn
      have hhigh := hm.high
      have hs := hsum n
      -- Three contributions never exceed a byte, the fourth is what `high` bounds.
      obtain ⟨-, hhi⟩ := blockSum_bounds vOf_bounds (fun k => m.byte (capMap + k)) w i j n
      obtain hn | rfl : n < 4 ∨ n = 4 := by omega
      · omega
      · omega
    refine ⟨hu, hv, ?_, ?_⟩
    · rw [convRgb24_u hw hh hi hj hb, toNat_ofInt (hu 4 le_rfl).1 (hu 4 le_rfl).2]
    · rw [convRgb24_v hw hh hi hj hb, toNat_ofInt (hv 4 le_rfl).1 (hv 4 le_rfl).2]

/-- Four pixels of full red, in the order b, g, r. -/
def redCell : Mem Bool := ⟨fun p => if p.off % 3 = 2 then 255 else 0, []⟩

/-- The four contributions to V are 71 each. -/
theorem chroma_not_exact_red : ¬ Exact outFrame capFrame 2 2 0 0 redCell := by
  intro he
  exact absurd (he.v 4 le_rfl).2 (by decide)

theorem chroma_exact_iff_grey :
    Exact outFrame capFrame 2 2 0 0 ⟨fun _ => 128, []⟩ ↔ Mild (fun _ => 128) 2 0 0 :=
  chroma_exact_iff (w := 2) (h := 2) (by decide) (by decide) (by decide) (by decide)
    (show capFrame.base ≠ outFrame.base by decide) ⟨fun _ => 128, []⟩

end SmartPrince.Common.ChromaSoundness

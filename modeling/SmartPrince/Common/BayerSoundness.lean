import SmartPrince.Lib.Plane
import SmartPrince.Common.VideoConv

/-! # Bayer frames to RGB24

The converter picks its samples by tests on the index of a pixel. Written by
column and row they are a list of cells for each channel, and all that the
frame needs of it is that these lie in the frame, around the pixel and under
the channel's filter. -/
namespace SmartPrince.Common.BayerSoundness
open SmartPrince.Lib.Loop SmartPrince.Lib.Memory SmartPrince.Lib.Plane
open SmartPrince.Common.VideoConv

variable {ι : Type} [DecidableEq ι]

/-! ## The mosaic -/

inductive Channel where
  | b
  | g
  | r
  deriving DecidableEq

/-- Where a channel's byte stands in a pixel. -/
def Channel.index : Channel → Nat
  | .b => 0
  | .g => 1
  | .r => 2

/-- The channel whose filter is in front of column `x` and row `y`. -/
def Channel.Covers : Channel → Nat → Nat → Prop
  | .b, x, y => y % 2 = 0 ∧ x % 2 = 0
  | .g, x, y => y % 2 ≠ x % 2
  | .r, x, y => y % 2 = 1 ∧ x % 2 = 1

/-- A channel's part of what is kept for all three. -/
def Channel.of {α : Type} : Channel → α × α × α → α
  | .b, t => t.1
  | .g, t => t.2.1
  | .r, t => t.2.2

/-- The cells whose samples make up column `x` and row `y`. -/
def bayerCells (w h x y : Nat) : List (Nat × Nat) × List (Nat × Nat) × List (Nat × Nat) :=
  let corners := [(x - 1, y - 1), (x + 1, y - 1), (x - 1, y + 1), (x + 1, y + 1)]
  if y % 2 = 0 then
    if x % 2 = 0 then
      if 0 < y ∧ 0 < x then
        ([(x, y)], [(x - 1, y), (x + 1, y), (x, y + 1), (x, y - 1)], corners)
      else ([(x, y)], [(x + 1, y), (x, y + 1)], [(x + 1, y + 1)])
    else if 0 < y ∧ x < w - 1 then
      ([(x - 1, y), (x + 1, y)], [(x, y)], [(x, y + 1), (x, y - 1)])
    else ([(x - 1, y)], [(x, y)], [(x, y + 1)])
  else if x % 2 = 0 then
    if y < h - 1 ∧ 0 < x then
      ([(x, y + 1), (x, y - 1)], [(x, y)], [(x - 1, y), (x + 1, y)])
    else ([(x, y - 1)], [(x, y)], [(x + 1, y)])
  else if y < h - 1 ∧ x < w - 1 then
    (corners, [(x - 1, y), (x + 1, y), (x, y - 1), (x, y + 1)], [(x, y)])
  else ([(x - 1, y - 1)], [(x - 1, y), (x, y - 1)], [(x, y)])

/-- A cell of channel `c` in the frame, among the nine around column `x` and row `y`. -/
structure Neighbour (w h x y : Nat) (c : Channel) (s : Nat × Nat) : Prop where
  inside : s.1 < w ∧ s.2 < h
  near : (s.1 ≤ x + 1 ∧ x ≤ s.1 + 1) ∧ s.2 ≤ y + 1 ∧ y ≤ s.2 + 1
  covered : c.Covers s.1 s.2

theorem neighbour_iff {w h x y : Nat} {c : Channel} {s : Nat × Nat} : Neighbour w h x y c s ↔
    (s.1 < w ∧ s.2 < h) ∧ ((s.1 ≤ x + 1 ∧ x ≤ s.1 + 1) ∧ s.2 ≤ y + 1 ∧ y ≤ s.2 + 1) ∧
      c.Covers s.1 s.2 :=
  ⟨fun hs => ⟨hs.inside, hs.near, hs.covered⟩, fun hs => ⟨hs.1, hs.2.1, hs.2.2⟩⟩

section Cells
variable {w h x y : Nat} {c : Channel}

theorem bayerCells_ne_nil : c.of (bayerCells w h x y) ≠ [] := by
  cases c <;> simp only [bayerCells, Channel.of] <;> split_ifs <;> exact List.cons_ne_nil _ _

theorem bayerCells_nodup : (c.of (bayerCells w h x y)).Nodup := by
  cases c <;> simp only [bayerCells, Channel.of] <;> split_ifs <;> simp <;> omega

/-- **Every channel of every pixel comes from cells of its own around it.** -/
theorem bayerCells_neighbour (hw : w % 2 = 0) (hh : h % 2 = 0) (hx : x < w) (hy : y < h) :
    ∀ s ∈ c.of (bayerCells w h x y), Neighbour w h x y c s := by
  cases c <;> simp only [bayerCells, Channel.of] <;> split_ifs <;>
    simp only [List.forall_mem_cons, List.not_mem_nil, false_implies, implies_true, and_true,
      neighbour_iff, Channel.Covers] <;> omega

/-- The pixel's own sample is taken as it is. -/
theorem bayerCells_native {c : Channel} (hc : c.Covers x y) :
    c.of (bayerCells w h x y) = [(x, y)] := by
  cases c <;> simp only [Channel.Covers] at hc <;> simp only [bayerCells, Channel.of] <;>
    split_ifs <;> first | rfl | omega

end Cells

/-! ## The samples by their pointers -/

/-- The sample of a cell. -/
def sampleAt (src : Ptr ι) (w : Nat) (s : Nat × Nat) : Ptr ι := src + (s.2 * w + s.1)

section Samples
variable {src : Ptr ι} {w h x y : Nat}

omit [DecidableEq ι] in
theorem sampleAt_right : sampleAt src w (x, y) + 1 = sampleAt src w (x + 1, y) := by
  simp only [sampleAt, Ptr.add_assoc, Nat.add_assoc]

omit [DecidableEq ι] in
theorem sampleAt_left (hx : 0 < x) : sampleAt src w (x, y) - 1 = sampleAt src w (x - 1, y) := by
  rw [sampleAt, Ptr.add_sub _ (by omega), Nat.add_sub_assoc hx]
  rfl

omit [DecidableEq ι] in
theorem sampleAt_down : sampleAt src w (x, y) + w = sampleAt src w (x, y + 1) := by
  simp only [sampleAt, Ptr.add_assoc, Nat.add_one_mul]
  congr 1
  omega

omit [DecidableEq ι] in
theorem sampleAt_up (hy : 0 < y) : sampleAt src w (x, y) - w = sampleAt src w (x, y - 1) := by
  obtain ⟨y, rfl⟩ := Nat.exists_eq_add_of_lt hy
  simp only [sampleAt, Nat.zero_add, Nat.add_one_mul, Nat.add_sub_cancel]
  rw [Ptr.add_sub _ (by omega)]
  congr 1
  omega

theorem index_parity (hw : w % 2 = 0) : (y * w + x) % 2 = x % 2 := by
  rw [Nat.add_mod, Nat.mul_mod, hw, Nat.mul_zero, Nat.zero_mod, Nat.zero_add, Nat.mod_mod]

/-- Of an even row the test holds in the top row nowhere and elsewhere everywhere. -/
theorem index_below_top (hx : x < w) (hy : y % 2 = 0) : y * w + x > w ↔ 0 < y := by
  obtain ⟨j, rfl⟩ : ∃ j, y = 2 * j := ⟨y / 2, by omega⟩
  cases j with
  | zero => omega
  | succ j =>
    rw [show 2 * (j + 1) * w + x = 2 * j * w + 2 * w + x by ring]
    omega

theorem index_above_bottom (hx : x < w) : y * w + x < w * (h - 1) ↔ y < h - 1 := by
  constructor
  · intro hlt
    by_contra hge
    have hrow := Nat.mul_le_mul_left w (Nat.le_of_not_lt hge)
    rw [Nat.mul_comm w y] at hrow
    omega
  · intro hlt
    exact site_lt hx hlt

omit [DecidableEq ι] in
/-- **The tests on the index are tests on column and row.** -/
theorem bayerSites_cells (hw : w % 2 = 0) (hx : x < w) (c : Channel) :
    c.of (bayerSites (sampleAt src w (x, y)) w h (y * w + x)) =
      (c.of (bayerCells w h x y)).map (sampleAt src w) := by
  simp only [bayerSites, bayerCells, site_div hx, site_mod hx, index_parity hw,
    index_above_bottom hx]
  by_cases hy2 : y % 2 = 0
  · simp only [if_pos hy2, index_below_top hx hy2]
    by_cases hx2 : x % 2 = 0
    · simp only [if_pos hx2]
      split_ifs with hin
      · simp only [sampleAt_right, sampleAt_left hin.2, sampleAt_down, sampleAt_up hin.1]
        cases c <;> rfl
      · simp only [sampleAt_right, sampleAt_down]
        cases c <;> rfl
    · have hx0 : 0 < x := by omega
      simp only [if_neg hx2]
      split_ifs with hin
      · simp only [sampleAt_right, sampleAt_left hx0, sampleAt_down, sampleAt_up hin.1]
        cases c <;> rfl
      · simp only [sampleAt_left hx0, sampleAt_down]
        cases c <;> rfl
  · have hy0 : 0 < y := by omega
    simp only [if_neg hy2]
    by_cases hx2 : x % 2 = 0
    · simp only [if_pos hx2]
      split_ifs with hin
      · simp only [sampleAt_right, sampleAt_left hin.2, sampleAt_down, sampleAt_up hy0]
        cases c <;> rfl
      · simp only [sampleAt_right, sampleAt_up hy0]
        cases c <;> rfl
    · have hx0 : 0 < x := by omega
      simp only [if_neg hx2]
      split_ifs with hin
      · simp only [sampleAt_right, sampleAt_left hx0, sampleAt_down, sampleAt_up hy0]
        cases c <;> rfl
      · simp only [sampleAt_left hx0, sampleAt_up hy0]
        cases c <;> rfl

end Samples

/-! ## The run -/

/-- `(a + b + …) / n` over the samples of some cells. -/
def meanOf (pixel : Nat × Nat → UInt8) (cells : List (Nat × Nat)) : Nat :=
  (cells.map fun s => (pixel s).toNat).sum / cells.length

theorem sum_le (pixel : Nat × Nat → UInt8) (cells : List (Nat × Nat)) :
    (cells.map fun s => (pixel s).toNat).sum ≤ cells.length * 255 := by
  induction cells with
  | nil => exact Nat.zero_le _
  | cons s cells ih =>
    have hs := (pixel s).toNat_lt
    rw [List.map_cons, List.sum_cons, List.length_cons]
    omega

theorem meanOf_lt {pixel : Nat × Nat → UInt8} {cells : List (Nat × Nat)} : meanOf pixel cells < 256 :=
  Nat.lt_succ_of_le (Nat.div_le_of_le_mul (sum_le pixel cells))

theorem meanOf_const {pixel : Nat × Nat → UInt8} {cells : List (Nat × Nat)} {v : UInt8}
    (h0 : cells ≠ []) (hv : ∀ s ∈ cells, pixel s = v) : meanOf pixel cells = v.toNat := by
  have hmap : (cells.map fun s => (pixel s).toNat) = List.replicate cells.length v.toNat := by
    rw [← List.map_const']
    exact List.map_congr_left fun s hs => congrArg UInt8.toNat (hv s hs)
  rw [meanOf, hmap, List.sum_replicate_nat,
    Nat.mul_div_cancel_left _ (List.length_pos_iff.mpr h0)]

def Channel.ofIndex : Nat → Channel
  | 0 => .b
  | 1 => .g
  | _ => .r

@[simp] theorem Channel.ofIndex_index (c : Channel) : Channel.ofIndex c.index = c := by
  cases c <;> rfl

theorem Channel.index_lt (c : Channel) : c.index < 3 := by cases c <;> decide

/-- Byte `n` of the picture. -/
def bayerByte (pixel : Nat × Nat → UInt8) (w h n : Nat) : UInt8 :=
  UInt8.ofNat (meanOf pixel
    ((Channel.ofIndex (n % 3)).of (bayerCells w h (n / 3 % w) (n / 3 / w))))

theorem bayerByte_channel (pixel : Nat × Nat → UInt8) {w x : Nat} (h y : Nat) (hx : x < w)
    (c : Channel) : bayerByte pixel w h (3 * (y * w + x) + c.index) =
      UInt8.ofNat (meanOf pixel (c.of (bayerCells w h x y))) := by
  have hc := c.index_lt
  rw [bayerByte, show (3 * (y * w + x) + c.index) % 3 = c.index by omega,
    show (3 * (y * w + x) + c.index) / 3 = y * w + x by omega, site_mod hx, site_div hx,
    Channel.ofIndex_index]

/-- From `m0` to `m` the first `n` bytes of the picture `v` were stored at `dst`, each once
and no other, reading only the frame at `src`. -/
structure Scanned (dst src : Ptr ι) (size : Nat) (v : Nat → UInt8) (m0 : Mem ι) (n : Nat)
    (m : Mem ι) : Prop where
  byte : m.byte = patch dst n v m0.byte
  stores : ∀ q, m.log.count (.store q) = m0.log.count (.store q) + once dst n q
  loads : ∀ q, .load q ∈ m.log → .load q ∈ m0.log ∨ Span src size q

section Run
variable {dst src : Ptr ι} (hb : src.base ≠ dst.base) {w h : Nat} {m0 : Mem ι}
include hb

theorem Scanned.mean {v : Nat → UInt8} {n : Nat} {m : Mem ι} {cells : List (Nat × Nat)}
    (hm : Scanned dst src (w * h) v m0 n m) (hin : ∀ s ∈ cells, s.1 < w ∧ s.2 < h)
    (hv : v n = UInt8.ofNat (meanOf (fun s => m0.byte (sampleAt src w s)) cells)) :
    Scanned dst src (w * h) v m0 (n + 1) (scanMean (dst + n) (cells.map (sampleAt src w)) m) := by
  have hsum : (m.sum (cells.map (sampleAt src w))).1 =
      (cells.map fun s => (m0.byte (sampleAt src w s)).toNat).sum := by
    rw [Mem.sum_fst, List.map_map]
    refine congrArg List.sum (List.map_congr_left fun s _ => ?_)
    rw [Function.comp_apply, hm.byte, patch_base (by exact hb)]
  refine ⟨?_, fun q => ?_, fun q hq => ?_⟩
  · rw [scanMean, Mem.store_byte, Mem.sum_byte, hsum, List.length_map, hm.byte, ← update_patch, hv]
    rfl
  · rw [scanMean, Mem.store_log, Mem.sum_log, List.count_cons, List.count_append,
      List.count_eq_zero_of_not_mem (by simp), hm.stores, once_succ]
    simp only [beq_iff_eq, Access.store.injEq]
    omega
  · rw [scanMean, Mem.store_log, Mem.sum_log] at hq
    simp only [List.mem_cons, reduceCtorEq, false_or, List.mem_append, List.mem_reverse,
      List.map_map, List.mem_map, Function.comp_apply, Access.load.injEq] at hq
    rcases hq with ⟨s, hs, rfl⟩ | hq
    · obtain ⟨h1, h2⟩ := hin s hs
      exact .inr (span_add.mpr (site_lt h1 h2))
    · exact hm.loads q hq

/-- The three bytes of pixel `k`. -/
def bayerTurn (dst src : Ptr ι) (w h k : Nat) (m : Mem ι) : Mem ι :=
  let t := bayerSites (src + k) w h k
  scanMean (dst + (3 * k + 2)) (Channel.r.of t)
    (scanMean (dst + (3 * k + 1)) (Channel.g.of t) (scanMean (dst + 3 * k) (Channel.b.of t) m))

omit hb in
theorem bayer_walk (dst src : Ptr ι) (w h : Nat) (m : Mem ι) :
    bayer2rgb24 dst src w h m = loop (w * h) (bayerTurn dst src w h) m := by
  rw [bayer2rgb24, loop_walk (fun k => (src + k, dst + 3 * k)) (bayerTurn dst src w h) (by simp)]
  intro k m _
  simp only [bayerPixel, bayerTurn, Channel.of, Ptr.add_assoc, Nat.mul_add_one]

theorem bayerTurn_scanned (hw : w % 2 = 0) (hh : h % 2 = 0) {k : Nat} (hk : k < w * h) {m : Mem ι}
    (hm : Scanned dst src (w * h) (bayerByte (fun s => m0.byte (sampleAt src w s)) w h) m0 (3 * k) m) :
    Scanned dst src (w * h) (bayerByte (fun s => m0.byte (sampleAt src w s)) w h) m0 (3 * (k + 1))
      (bayerTurn dst src w h k m) := by
  obtain ⟨x, y, hx, hy, rfl⟩ := exists_site hk
  have hin : ∀ c : Channel, ∀ s ∈ c.of (bayerCells w h x y), s.1 < w ∧ s.2 < h := fun c s hs =>
    (bayerCells_neighbour hw hh hx hy s hs).inside
  have hv := fun c => bayerByte_channel (fun s => m0.byte (sampleAt src w s)) h y hx c
  have hb1 := hm.mean hb (hin .b) (hv .b)
  have hg1 := hb1.mean hb (hin .g) (hv .g)
  have hr1 := hg1.mean hb (hin .r) (hv .r)
  rw [← bayerSites_cells hw hx, ← bayerSites_cells hw hx, ← bayerSites_cells hw hx] at hr1
  exact hr1

theorem bayer2rgb24_scanned (hw : w % 2 = 0) (hh : h % 2 = 0) (m : Mem ι) :
    Scanned dst src (w * h) (bayerByte (fun s => m.byte (sampleAt src w s)) w h) m (3 * (w * h))
      (bayer2rgb24 dst src w h m) := by
  rw [bayer_walk]
  exact loop_inv (fun k m' => Scanned dst src (w * h)
    (bayerByte (fun s => m.byte (sampleAt src w s)) w h) m (3 * k) m')
    ⟨by simp, fun q => by simp [once], fun q hq => .inl hq⟩ fun k m' hk hm =>
      bayerTurn_scanned hb hw hh hk hm

end Run

/-! ## The picture -/

/-- From `m` to `m'` the Bayer frame at `src` was turned into an RGB24 picture at `dst`. -/
structure Demosaiced (dst src : Ptr ι) (w h : Nat) (m m' : Mem ι) : Prop where
  loads : ∀ q, .load q ∈ m'.log → .load q ∈ m.log ∨ Span src (w * h) q
  stores : ∀ q, m'.log.count (.store q) = m.log.count (.store q) + once dst (3 * (w * h)) q
  native : ∀ x y (c : Channel), x < w → y < h → c.Covers x y →
    m'.byte (dst + (3 * (y * w + x) + c.index)) = m.byte (src + (y * w + x))
  mean : ∀ x y (c : Channel), x < w → y < h → ¬ c.Covers x y → ∃ cells : List (Nat × Nat),
    cells ≠ [] ∧ cells.Nodup ∧ (∀ s ∈ cells, Neighbour w h x y c s) ∧
    (m'.byte (dst + (3 * (y * w + x) + c.index))).toNat =
      meanOf (fun s => m.byte (src + (s.2 * w + s.1))) cells

section Picture
variable {dst src : Ptr ι} (hb : src.base ≠ dst.base) {w h : Nat} (hw : w % 2 = 0)
  (hh : h % 2 = 0) (m : Mem ι)
include hb hw hh

/-- A channel's byte is the mean over its cells. -/
theorem bayer_channel {x y : Nat} (hx : x < w) (hy : y < h) (c : Channel) :
    ((bayer2rgb24 dst src w h m).byte (dst + (3 * (y * w + x) + c.index))).toNat =
      meanOf (fun s => m.byte (sampleAt src w s)) (c.of (bayerCells w h x y)) := by
  have hk := site_lt hx hy
  have hc := c.index_lt
  rw [(bayer2rgb24_scanned hb hw hh m).byte, patch_in (by omega), bayerByte_channel _ h y hx]
  exact UInt8.toNat_ofNat_of_lt' meanOf_lt

theorem bayer2rgb24_demosaiced : Demosaiced dst src w h m (bayer2rgb24 dst src w h m) where
  loads := (bayer2rgb24_scanned hb hw hh m).loads
  stores := (bayer2rgb24_scanned hb hw hh m).stores
  native x y c hx hy hc := by
    apply UInt8.toNat_inj.mp
    rw [bayer_channel hb hw hh m hx hy, bayerCells_native hc]
    exact meanOf_const (List.cons_ne_nil _ _) fun s hs => by rw [List.mem_singleton.mp hs]; rfl
  mean x y c hx hy _ := ⟨c.of (bayerCells w h x y), bayerCells_ne_nil, bayerCells_nodup,
    bayerCells_neighbour hw hh hx hy, bayer_channel hb hw hh m hx hy c⟩

/-- The mosaic of a colour is a picture of that colour. -/
theorem bayer2rgb24_uniform {colour : Channel → UInt8}
    (hcol : ∀ x y (c : Channel), x < w → y < h → c.Covers x y →
      m.byte (src + (y * w + x)) = colour c) {x y : Nat} (hx : x < w) (hy : y < h) (c : Channel) :
    (bayer2rgb24 dst src w h m).byte (dst + (3 * (y * w + x) + c.index)) = colour c := by
  apply UInt8.toNat_inj.mp
  rw [bayer_channel hb hw hh m hx hy]
  refine meanOf_const bayerCells_ne_nil fun s hs => ?_
  obtain ⟨hin, -, hcov⟩ := bayerCells_neighbour hw hh hx hy s hs
  exact hcol s.1 s.2 c hin.1 hin.2 hcov

end Picture

/-- **Every channel is a mean of samples of its own colour around the pixel.** -/
theorem bayer_demosaics {w h : Nat} (hw : w % 2 = 0) (hh : h % 2 = 0) {dst src : Ptr ι}
    (hb : src.base ≠ dst.base) (m : Mem ι) :
    Demosaiced dst src w h m (bayer2rgb24 dst src w h m) ∧
    ∀ colour : Channel → UInt8,
      (∀ x y (c : Channel), x < w → y < h → c.Covers x y →
        m.byte (src + (y * w + x)) = colour c) →
      ∀ x y (c : Channel), x < w → y < h →
        (bayer2rgb24 dst src w h m).byte (dst + (3 * (y * w + x) + c.index)) = colour c :=
  ⟨bayer2rgb24_demosaiced hb hw hh m, fun _ hcol _ _ c hx hy =>
    bayer2rgb24_uniform hb hw hh m hcol hx hy c⟩

/-- A frame of raw samples, and where its picture goes. -/
def rawFrame : Ptr Bool := ⟨false, 0⟩

def picture : Ptr Bool := ⟨true, 0⟩

theorem bayer_demosaics_wide :
    Demosaiced picture rawFrame 4 2 ⟨fun p => UInt8.ofInt p.off, []⟩
      (bayer2rgb24 picture rawFrame 4 2 ⟨fun p => UInt8.ofInt p.off, []⟩) ∧
    ∀ colour : Channel → UInt8,
      (∀ x y (c : Channel), x < 4 → y < 2 → c.Covers x y →
        UInt8.ofInt (rawFrame + (y * 4 + x)).off = colour c) →
      ∀ x y (c : Channel), x < 4 → y < 2 →
        (bayer2rgb24 picture rawFrame 4 2 ⟨fun p => UInt8.ofInt p.off, []⟩).byte
          (picture + (3 * (y * 4 + x) + c.index)) = colour c :=
  bayer_demosaics (w := 4) (h := 2) (by decide) (by decide)
    (show rawFrame.base ≠ picture.base by decide) ⟨fun p => UInt8.ofInt p.off, []⟩

end SmartPrince.Common.BayerSoundness

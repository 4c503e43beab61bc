import SmartPrince.Common.Yuv420p
import SmartPrince.Common.VideoConv

/-! # The two packed 4:2:2 converters

`conv_yuv422to420p` makes two passes with four cursors, `conv_uyvyto420p` one
pass that looks a row ahead. Both walks are first brought to loops over pixel
and chroma indices; memory, loads and stores then follow turn by turn, and
both come out as the same planar frame. -/
namespace SmartPrince.Common.Yuv422Soundness
open SmartPrince.Lib.Loop SmartPrince.Lib.Memory
open SmartPrince.Common.VideoConv SmartPrince.Common.Yuv420p

variable {ι : Type} [DecidableEq ι]

/-! ## What the converters compute -/

/-- The floor of the average of two samples. -/
def mean (a b : UInt8) : UInt8 := UInt8.ofNat ((a.toNat + b.toNat) / 2)

/-- Where the four bytes of the packed pair of chroma cell `k` start: row
`2 * (k / (w / 2))`, pair `k % (w / 2)`. -/
def cellOff (w k : Nat) : Nat := w * 4 * (k / (w / 2)) + 4 * (k % (w / 2))

/-- The planar frame of a packed one whose luma bytes lie at `2 * k + yo` and
whose chroma bytes lie at `uo` and `vo` in their pair. -/
def packedFrame (yo uo vo w : Nat) (src : Nat → UInt8) : Frame where
  y k := src (2 * k + yo)
  u k := mean (src (cellOff w k + uo)) (src (cellOff w k + uo + w * 2))
  v k := mean (src (cellOff w k + vo)) (src (cellOff w k + vo + w * 2))

def yuyvFrame (w : Nat) (src : Nat → UInt8) : Frame := packedFrame 0 1 3 w src

def uyvyFrame (w : Nat) (src : Nat → UInt8) : Frame := packedFrame 1 0 2 w src

theorem cellOff_lt {w h k : Nat} (hw : w % 2 = 0) (hh : h % 2 = 0) (hk : k < w * h / 4) :
    cellOff w k + 4 + w * 2 ≤ 2 * (w * h) := by
  obtain ⟨hs, _, _⟩ := frame_size hw hh
  have hc : 0 < w / 2 := Nat.pos_of_ne_zero fun h0 => by simp [← hs, h0] at hk
  have hr : k / (w / 2) + 1 ≤ h / 2 :=
    (Nat.div_lt_iff_lt_mul hc).mpr (by rw [Nat.mul_comm, hs]; exact hk)
  have hm : k % (w / 2) < w / 2 := Nat.mod_lt _ hc
  have hb : w * 4 * (k / (w / 2) + 1) ≤ w * 4 * (h / 2) := Nat.mul_le_mul_left _ hr
  have he : w * 4 * (h / 2) = 2 * (w * h) := by
    rw [show w * h = w * (2 * (h / 2)) by rw [Nat.mul_div_cancel' (Nat.dvd_of_mod_eq_zero hh)]]; ring
  rw [cellOff, Nat.mul_add] at *
  omega

/-! ## `conv_yuv422to420p` -/

/-- Chroma cell `k`: the U pair, then the V pair. -/
def yuv422Cell (map capMap : Ptr ι) (w h k : Nat) (m : Mem ι) : Mem ι :=
  average (capMap + (cellOff w k + 3)) (capMap + (cellOff w k + 3 + w * 2)) (vPlane map w h + k)
    (average (capMap + (cellOff w k + 1)) (capMap + (cellOff w k + 1 + w * 2))
      (uPlane map w h + k) m)

theorem yuv422Luma_walk (map capMap : Ptr ι) (n : Nat) (m : Mem ι) :
    loop n yuv422Luma ((capMap, map), m) =
      ((capMap + 2 * n, map + n), loop n (fun k m => m.copy (map + k) (capMap + 2 * k)) m) := by
  refine loop_walk (fun k => (capMap + 2 * k, map + k)) _ (by simp) (fun k m _ => ?_) m
  simp only [yuv422Luma, Ptr.add_assoc]
  rfl

/-- The cursors `c` of a row's start, after `j` chroma cells. -/
def chromaCursor (c : Yuv422Cursor ι) (j : Nat) : Yuv422Cursor ι :=
  ⟨c.src + 4 * j, c.src2 + 4 * j, c.dest + j, c.dest2 + j⟩

theorem yuv422Chroma_walk (c : Yuv422Cursor ι) (n : Nat) (m : Mem ι) :
    loop n yuv422Chroma (c, m) =
      (chromaCursor c n, loop n (fun j m =>
          average (c.src + (4 * j + 2)) (c.src2 + (4 * j + 2)) (c.dest2 + j)
            (average (c.src + 4 * j) (c.src2 + 4 * j) (c.dest + j) m)) m) := by
  refine loop_walk (chromaCursor c) _ (by simp [chromaCursor]) (fun j m _ => ?_) m
  simp only [yuv422Chroma, chromaCursor, Ptr.add_assoc]
  rfl

/-- The cursors at the start of the `i`-th pair of rows. -/
def rowCursor (map capMap : Ptr ι) (w h i : Nat) : Yuv422Cursor ι :=
  ⟨capMap + (w * 4 * i + 1), capMap + (w * 4 * i + 1 + w * 2),
    uPlane map w h + i * (w / 2), vPlane map w h + i * (w / 2)⟩

theorem yuv422_walk (map capMap : Ptr ι) {w h : Nat} (hw : w % 2 = 0) (hh : h % 2 = 0) (m : Mem ι) :
    convYuv422to420p map capMap w h m =
      loop (w * h / 4) (yuv422Cell map capMap w h)
        (loop (w * h) (fun k m => m.copy (map + k) (capMap + 2 * k)) m) := by
  obtain ⟨hs, _, _⟩ := frame_size hw hh
  have he : 4 * (w / 2) + w * 2 = w * 4 := by omega
  simp only [convYuv422to420p, yuv422Luma_walk]
  rw [loop_walk (rowCursor map capMap w h)
    (fun i m => loop (w / 2) (fun j m =>
      average (capMap + (w * 4 * i + 1 + (4 * j + 2))) (capMap + (w * 4 * i + 1 + w * 2 + (4 * j + 2)))
        (vPlane map w h + (i * (w / 2) + j))
        (average (capMap + (w * 4 * i + 1 + 4 * j)) (capMap + (w * 4 * i + 1 + w * 2 + 4 * j))
          (uPlane map w h + (i * (w / 2) + j)) m)) m)]
  · simp only
    rw [loop_nest, Nat.mul_comm (h / 2), hs]
    refine loop_congr (fun k m _ => ?_) _
    have e1 : ∀ r c, w * 4 * r + 1 + 4 * c = w * 4 * r + 4 * c + 1 := by intros; omega
    have e2 : ∀ r c, w * 4 * r + 1 + w * 2 + 4 * c = w * 4 * r + 4 * c + 1 + w * 2 := by
      intros; omega
    have e3 : ∀ r c, w * 4 * r + 1 + (4 * c + 2) = w * 4 * r + 4 * c + 3 := by intros; omega
    have e4 : ∀ r c, w * 4 * r + 1 + w * 2 + (4 * c + 2) = w * 4 * r + 4 * c + 3 + w * 2 := by
      intros; omega
    simp only [yuv422Cell, cellOff, Nat.div_add_mod', e1, e2, e3, e4]
  · simp [rowCursor, uPlane, vPlane, Nat.add_comm]
  · intro i m _
    have hi : w * 4 * (i + 1) = w * 4 * i + w * 4 := Nat.mul_succ _ _
    simp only [yuv422ChromaRow, yuv422Chroma_walk, chromaCursor, rowCursor, Ptr.add_assoc,
      Nat.succ_mul, hi, Prod.mk.injEq, Yuv422Cursor.mk.injEq, Ptr.add_right_inj, and_true]
    omega

/-- A chroma byte written as the average of two input bytes. -/
theorem average_writes {map : Ptr ι} {w h : Nat} {F : Frame} {reads : Ptr ι → Prop} {m0 m : Mem ι}
    {n a b : Nat} (hm : Writes map w h F reads m0 n a b m) {p q : Ptr ι} (hp : reads p)
    (hq : reads q) (hpb : p.base ≠ map.base) (hqb : q.base ≠ map.base) (hn : n ≤ w * h) :
    (F.u a = mean (m0.byte p) (m0.byte q) →
      Writes map w h F reads m0 n (a + 1) b (average p q (uPlane map w h + a) m)) ∧
    (a ≤ w * h / 4 → F.v b = mean (m0.byte p) (m0.byte q) →
      Writes map w h F reads m0 n a (b + 1) (average p q (vPlane map w h + b) m)) := by
  have hr := (hm.load hp).load hq
  have he : ∀ d, average p q d m =
      ((m.load p).2.load q).2.store d (mean (m0.byte p) (m0.byte q)) := by
    intro d
    rw [← hm.input hpb, ← hm.input hqb]; rfl
  refine ⟨fun hv => ?_, fun ha hv => ?_⟩
  · rw [he, ← hv]; exact hr.u hn
  · rw [he, ← hv]; exact hr.v hn ha

theorem convYuv422to420p_writes {map capMap : Ptr ι} (hb : capMap.base ≠ map.base) {w h : Nat}
    (hw : w % 2 = 0) (hh : h % 2 = 0) (m : Mem ι) :
    Writes map w h (yuyvFrame w fun i => m.byte (capMap + i)) (Span capMap (2 * (w * h))) m
      (w * h) (w * h / 4) (w * h / 4) (convYuv422to420p map capMap w h m) := by
  rw [yuv422_walk map capMap hw hh]
  have hy : Writes map w h (yuyvFrame w fun i => m.byte (capMap + i)) (Span capMap (2 * (w * h))) m
      (w * h) 0 0 (loop (w * h) (fun k m => m.copy (map + k) (capMap + 2 * k)) m) :=
    loop_inv (fun k t => Writes map w h (yuyvFrame w fun i => m.byte (capMap + i))
      (Span capMap (2 * (w * h))) m k 0 0 t) Writes.start fun _ _ _ ht =>
        ht.copy_luma (span_add.mpr (by omega)) hb rfl
  refine loop_inv (fun k t => Writes map w h (yuyvFrame w fun i => m.byte (capMap + i))
    (Span capMap (2 * (w * h))) m (w * h) k k t) hy fun k t hk ht => ?_
  have hc := cellOff_lt hw hh hk
  have hu := (average_writes ht (p := capMap + (cellOff w k + 1))
    (q := capMap + (cellOff w k + 1 + w * 2)) (span_add.mpr (by omega)) (span_add.mpr (by omega))
    hb hb (Nat.le_refl _)).1 rfl
  exact (average_writes hu (span_add.mpr (by omega)) (span_add.mpr (by omega))
    hb hb (Nat.le_refl _)).2 hk rfl

/-! ## `conv_uyvyto420p` -/

/-- The chroma cells written when `j` pairs of row `ix` are done: even rows
write them, odd rows find them written. -/
def chromaDone (w ix j : Nat) : Nat :=
  if ix % 2 = 0 then ix / 2 * (w / 2) + j else (ix + 1) / 2 * (w / 2)

def uyvyCursor (map capMap : Ptr ι) (w h ix j : Nat) : UyvyCursor ι :=
  ⟨map + (ix * w + 2 * j), uPlane map w h + chromaDone w ix j, vPlane map w h + chromaDone w ix j,
    capMap + (w * 2 * ix + 4 * j)⟩

def uyvyTurn (map capMap : Ptr ι) (w h ix j : Nat) (m : Mem ι) : Mem ι :=
  let o := w * 2 * ix + 4 * j
  let n := ix * w + 2 * j
  let c := chromaDone w ix j
  let m := if ix % 2 = 0 then uyvyCalc (capMap + o) (uPlane map w h + c) (w * 2) m else m
  let m := m.copy (map + n) (capMap + (o + 1))
  let m := if ix % 2 = 0 then uyvyCalc (capMap + (o + 2)) (vPlane map w h + c) (w * 2) m else m
  m.copy (map + (n + 1)) (capMap + (o + 3))

theorem uyvyPair_walk (map capMap : Ptr ι) (w h ix j : Nat) (m : Mem ι) :
    uyvyPair (w * 2) ix j (uyvyCursor map capMap w h ix j, m) =
      (uyvyCursor map capMap w h ix (j + 1), uyvyTurn map capMap w h ix j m) := by
  by_cases he : ix % 2 = 0
  · simp [uyvyPair, uyvyTurn, uyvyLuma, uyvyCursor, chromaDone, he, Ptr.add_assoc]
    omega
  · simp [uyvyPair, uyvyTurn, uyvyLuma, uyvyCursor, chromaDone, he, Ptr.add_assoc]
    omega

theorem chromaDone_next (w ix : Nat) :
    chromaDone w ix (w / 2) = chromaDone w (ix + 1) 0 := by
  unfold chromaDone
  rcases Nat.mod_two_eq_zero_or_one ix with he | he
  · rw [if_pos he, if_neg (by omega), show (ix + 1 + 1) / 2 = ix / 2 + 1 by omega,
      Nat.add_one_mul (ix / 2) (w / 2)]
  · rw [if_neg (by omega), if_pos (by omega)]; simp

omit [DecidableEq ι] in
/-- The last pair of a row leaves the cursors at the start of the next one. -/
theorem uyvyCursor_next (map capMap : Ptr ι) {w : Nat} (hw : w % 2 = 0) (h ix : Nat) :
    uyvyCursor map capMap w h ix (w / 2) = uyvyCursor map capMap w h (ix + 1) 0 := by
  have e1 : ix * w + 2 * (w / 2) = (ix + 1) * w := by rw [Nat.add_one_mul ix w]; omega
  have e2 : w * 2 * ix + 4 * (w / 2) = w * 2 * (ix + 1) := by
    rw [Nat.mul_add_one (w * 2) ix]; omega
  simp only [uyvyCursor, e1, e2, chromaDone_next, Nat.mul_zero, Nat.add_zero]

theorem uyvy_walk (map capMap : Ptr ι) {w : Nat} (hw : w % 2 = 0) (h : Nat) (m : Mem ι) :
    convUyvyto420p map capMap w h m =
      loop h (fun ix => loop (w / 2) (uyvyTurn map capMap w h ix)) m := by
  have hturns : (w + 1) / 2 = w / 2 := by omega
  simp only [convUyvyto420p, hturns]
  rw [loop_walk (fun ix => uyvyCursor map capMap w h ix 0)
    (fun ix => loop (w / 2) (uyvyTurn map capMap w h ix))]
  · simp [uyvyCursor, chromaDone, uPlane, vPlane]
  · intro ix m _
    rw [loop_walk (uyvyCursor map capMap w h ix) (uyvyTurn map capMap w h ix) rfl
      (fun j m _ => uyvyPair_walk map capMap w h ix j m), uyvyCursor_next map capMap hw]

/-- The 16-bit sum of two bytes does not wrap. -/
theorem uyvyCalc_eq (p d : Ptr ι) (off : Nat) (m : Mem ι) :
    uyvyCalc p d off m = average p (p + off) d m := by
  have hlt : ∀ a b : UInt8, (a.toNat + b.toNat) % 2 ^ 16 = a.toNat + b.toNat := fun a b =>
    Nat.mod_eq_of_lt (by have := a.toNat_lt; have := b.toNat_lt; omega)
  simp only [uyvyCalc, average, Mem.load, hlt]

/-- The chroma cell an even row is at, and where its bytes start. -/
theorem cellOff_chromaDone {w ix j : Nat} (he : ix % 2 = 0) (hj : j < w / 2) :
    cellOff w (chromaDone w ix j) = w * 2 * ix + 4 * j := by
  have hc : 0 < w / 2 := by omega
  have hd : (ix / 2 * (w / 2) + j) / (w / 2) = ix / 2 := by
    rw [Nat.add_comm, Nat.add_mul_div_right _ _ hc, Nat.div_eq_of_lt hj, Nat.zero_add]
  have hm : (ix / 2 * (w / 2) + j) % (w / 2) = j := by
    rw [Nat.add_comm, Nat.add_mul_mod_self_right, Nat.mod_eq_of_lt hj]
  have hix : w * 2 * ix = w * 4 * (ix / 2) := by
    rw [show w * 2 * ix = w * 2 * (2 * (ix / 2)) by rw [Nat.mul_div_cancel' (by omega)]]; ring
  rw [chromaDone, if_pos he, cellOff, hd, hm, hix]

theorem chromaDone_lt {w h ix j : Nat} (hw : w % 2 = 0) (hh : h % 2 = 0) (hix : ix < h)
    (he : ix % 2 = 0) (hj : j < w / 2) : chromaDone w ix j < w * h / 4 := by
  have hrow : (ix / 2 + 1) * (w / 2) ≤ h / 2 * (w / 2) := Nat.mul_le_mul_right _ (by omega)
  rw [Nat.add_one_mul, Nat.mul_comm (h / 2), (frame_size hw hh).1] at hrow
  rw [chromaDone, if_pos he]
  omega

theorem luma_row_lt {w h ix j : Nat} (hix : ix < h) (hj : j < w / 2) :
    ix * w + 2 * j + 1 < w * h := by
  have hrow : (ix + 1) * w ≤ h * w := Nat.mul_le_mul_right _ hix
  rw [Nat.add_one_mul, Nat.mul_comm h] at hrow
  omega

theorem uyvyTurn_writes {map capMap : Ptr ι} (hb : capMap.base ≠ map.base) {w h ix j : Nat}
    (hw : w % 2 = 0) (hh : h % 2 = 0) (hix : ix < h) (hj : j < w / 2) {m t : Mem ι}
    (ht : Writes map w h (uyvyFrame w fun i => m.byte (capMap + i)) (Span capMap (2 * (w * h))) m
      (ix * w + 2 * j) (chromaDone w ix j) (chromaDone w ix j) t) :
    Writes map w h (uyvyFrame w fun i => m.byte (capMap + i)) (Span capMap (2 * (w * h))) m
      (ix * w + 2 * (j + 1)) (chromaDone w ix (j + 1)) (chromaDone w ix (j + 1))
      (uyvyTurn map capMap w h ix j t) := by
  have hl := luma_row_lt hix hj
  have ho : w * 2 * ix + 4 * j = 2 * (ix * w + 2 * j) := by ring
  have hy : ∀ n, (uyvyFrame w fun i => m.byte (capMap + i)).y n = m.byte (capMap + (2 * n + 1)) :=
    fun _ => rfl
  by_cases he : ix % 2 = 0
  · have hd : chromaDone w ix (j + 1) = chromaDone w ix j + 1 := by simp [chromaDone, he]; omega
    have hc := chromaDone_lt hw hh hix he hj
    have hcell := cellOff_lt hw hh hc
    rw [cellOff_chromaDone he hj] at hcell
    have hu := (average_writes ht (p := capMap + (w * 2 * ix + 4 * j))
      (q := capMap + (w * 2 * ix + 4 * j) + w * 2) (span_add.mpr (by omega))
      (by rw [Ptr.add_assoc, span_add]; omega) hb hb (by omega)).1
      (by simp only [uyvyFrame, packedFrame, cellOff_chromaDone he hj, Ptr.add_assoc, Nat.add_zero])
    have h1 := hu.copy_luma (q := capMap + (w * 2 * ix + 4 * j + 1)) (span_add.mpr (by omega)) hb
      (by rw [hy, ho])
    have hv := (average_writes h1 (p := capMap + (w * 2 * ix + 4 * j + 2))
      (q := capMap + (w * 2 * ix + 4 * j + 2) + w * 2) (span_add.mpr (by omega))
      (by rw [Ptr.add_assoc, span_add]; omega) hb hb (by omega)).2 hc
      (by simp only [uyvyFrame, packedFrame, cellOff_chromaDone he hj, Ptr.add_assoc])
    have h2 := hv.copy_luma (q := capMap + (w * 2 * ix + 4 * j + 3)) (span_add.mpr (by omega)) hb
      (by rw [hy, ho]; congr 2)
    simpa only [uyvyTurn, uyvyCalc_eq, if_pos he, hd, Nat.mul_add, Nat.add_assoc] using h2
  · have hd : chromaDone w ix (j + 1) = chromaDone w ix j := by simp [chromaDone, he]
    have h1 := ht.copy_luma (q := capMap + (w * 2 * ix + 4 * j + 1)) (span_add.mpr (by omega)) hb
      (by rw [hy, ho])
    have h2 := h1.copy_luma (q := capMap + (w * 2 * ix + 4 * j + 3)) (span_add.mpr (by omega)) hb
      (by rw [hy, ho]; congr 2)
    simpa only [uyvyTurn, if_neg he, hd, Nat.mul_add, Nat.add_assoc] using h2

theorem convUyvyto420p_writes {map capMap : Ptr ι} (hb : capMap.base ≠ map.base) {w h : Nat}
    (hw : w % 2 = 0) (hh : h % 2 = 0) (m : Mem ι) :
    Writes map w h (uyvyFrame w fun i => m.byte (capMap + i)) (Span capMap (2 * (w * h))) m
      (w * h) (w * h / 4) (w * h / 4) (convUyvyto420p map capMap w h m) := by
  have he : 2 * (w / 2) = w := Nat.mul_div_cancel' (by omega)
  have hend : chromaDone w h 0 = w * h / 4 := by
    rw [chromaDone, if_pos hh, Nat.add_zero, Nat.mul_comm, (frame_size hw hh).1]
  have hrows := loop_inv (fun ix t => Writes map w h (uyvyFrame w fun i => m.byte (capMap + i))
    (Span capMap (2 * (w * h))) m (ix * w) (chromaDone w ix 0) (chromaDone w ix 0) t)
    (n := h) (s := m) (by simpa [chromaDone] using Writes.start)
    fun ix t hix ht => by
      have hrow := loop_inv (fun j t => Writes map w h (uyvyFrame w fun i => m.byte (capMap + i))
        (Span capMap (2 * (w * h))) m (ix * w + 2 * j) (chromaDone w ix j) (chromaDone w ix j) t)
        (n := w / 2) ht fun j t hj ht => uyvyTurn_writes hb hw hh hix hj ht
      rw [he, ← Nat.add_one_mul, chromaDone_next] at hrow
      exact hrow
  rw [uyvy_walk map capMap hw]
  rwa [hend, Nat.mul_comm h w] at hrows

/-! ## One picture, two packings -/

/-- A 4:2:2 picture: luma at every pixel, chroma at every pair of columns. -/
structure Picture where
  y : Nat → Nat → UInt8
  u : Nat → Nat → UInt8
  v : Nat → Nat → UInt8

/-- Byte `i` of the YUYV packing: `Y U Y V` for each pair of columns. -/
def Picture.yuyv (P : Picture) (w i : Nat) : UInt8 :=
  let row := i / (2 * w)
  let c := i % (2 * w)
  if c % 2 = 0 then P.y (c / 2) row else if c % 4 = 1 then P.u (c / 4) row else P.v (c / 4) row

/-- Byte `i` of the UYVY packing: `U Y V Y`. -/
def Picture.uyvy (P : Picture) (w i : Nat) : UInt8 :=
  let row := i / (2 * w)
  let c := i % (2 * w)
  if c % 2 = 1 then P.y (c / 2) row else if c % 4 = 0 then P.u (c / 4) row else P.v (c / 4) row

/-- The 4:2:0 frame of a picture: luma in raster order, and for each pair of
rows and each chroma column the floor of the average of the two samples. -/
def Picture.planar (P : Picture) (w : Nat) : Frame where
  y k := P.y (k % w) (k / w)
  u k := mean (P.u (k % (w / 2)) (2 * (k / (w / 2)))) (P.u (k % (w / 2)) (2 * (k / (w / 2)) + 1))
  v k := mean (P.v (k % (w / 2)) (2 * (k / (w / 2)))) (P.v (k % (w / 2)) (2 * (k / (w / 2)) + 1))

theorem row_col {w row c : Nat} (hc : c < 2 * w) :
    (2 * w * row + c) / (2 * w) = row ∧ (2 * w * row + c) % (2 * w) = c := by
  rw [Nat.mul_add_div (by omega), Nat.div_eq_of_lt hc, Nat.mul_add_mod, Nat.mod_eq_of_lt hc]
  exact ⟨rfl, rfl⟩

section Packing
variable {w h k d : Nat} (P : Picture) (hw : w % 2 = 0)
include hw

theorem luma_site (hk : k < w * h) (hd : d < 2) :
    2 * k + d = 2 * w * (k / w) + (2 * (k % w) + d) ∧ 2 * (k % w) + d < 2 * w := by
  have hpos : 0 < w := Nat.pos_of_ne_zero fun h0 => by simp [h0] at hk
  have hm : k % w < w := Nat.mod_lt _ hpos
  have hdm := Nat.div_add_mod k w
  rw [Nat.mul_assoc]
  omega

theorem cell_site (hk : k < w * h / 4) (hd : d < 4) :
    cellOff w k + d = 2 * w * (2 * (k / (w / 2))) + (4 * (k % (w / 2)) + d) ∧
    cellOff w k + d + w * 2 = 2 * w * (2 * (k / (w / 2)) + 1) + (4 * (k % (w / 2)) + d) ∧
    4 * (k % (w / 2)) + d < 2 * w := by
  have hpos : 0 < w / 2 := Nat.pos_of_ne_zero fun h0 => by
    have : w = 0 := by omega
    simp [this] at hk
  have hm : k % (w / 2) < w / 2 := Nat.mod_lt _ hpos
  have e1 : w * 4 * (k / (w / 2)) = 2 * w * (2 * (k / (w / 2))) := by ring
  rw [cellOff, e1, Nat.mul_add_one (2 * w)]
  omega

theorem yuyv_planar (src : Nat → UInt8) (hs : ∀ i, i < 2 * (w * h) → src i = P.yuyv w i)
    (hh : h % 2 = 0) : (yuyvFrame w src).Same w h (P.planar w) := by
  refine ⟨fun k hk => ?_, fun k hk => ?_, fun k hk => ?_⟩
  · obtain ⟨hi, hc⟩ := luma_site hw hk (show 0 < 2 by omega)
    simp only [yuyvFrame, packedFrame, Picture.planar]
    rw [hs _ (by omega), Picture.yuyv, hi, (row_col hc).1, (row_col hc).2, if_pos (by omega)]
    congr 1; omega
  · obtain ⟨hi, hi', hc⟩ := cell_site hw hk (show 1 < 4 by omega)
    have hlt := cellOff_lt hw hh hk
    simp only [yuyvFrame, packedFrame, Picture.planar]
    rw [hs _ (by omega), hs _ (by omega), hi', hi]
    simp only [Picture.yuyv, (row_col hc).1, (row_col hc).2]
    rw [if_neg (by omega), if_pos (by omega), if_neg (by omega), if_pos (by omega),
      show (4 * (k % (w / 2)) + 1) / 4 = k % (w / 2) by omega]
  · obtain ⟨hi, hi', hc⟩ := cell_site hw hk (show 3 < 4 by omega)
    have hlt := cellOff_lt hw hh hk
    simp only [yuyvFrame, packedFrame, Picture.planar]
    rw [hs _ (by omega), hs _ (by omega), hi', hi]
    simp only [Picture.yuyv, (row_col hc).1, (row_col hc).2]
    rw [if_neg (by omega), if_neg (by omega), if_neg (by omega), if_neg (by omega),
      show (4 * (k % (w / 2)) + 3) / 4 = k % (w / 2) by omega]

theorem uyvy_planar (src : Nat → UInt8) (hs : ∀ i, i < 2 * (w * h) → src i = P.uyvy w i)
    (hh : h % 2 = 0) : (uyvyFrame w src).Same w h (P.planar w) := by
  refine ⟨fun k hk => ?_, fun k hk => ?_, fun k hk => ?_⟩
  · obtain ⟨hi, hc⟩ := luma_site hw hk (show 1 < 2 by omega)
    simp only [uyvyFrame, packedFrame, Picture.planar]
    rw [hs _ (by omega), Picture.uyvy, hi, (row_col hc).1, (row_col hc).2, if_pos (by omega)]
    congr 1; omega
  · obtain ⟨hi, hi', hc⟩ := cell_site hw hk (show 0 < 4 by omega)
    have hlt := cellOff_lt hw hh hk
    simp only [uyvyFrame, packedFrame, Picture.planar]
    rw [hs _ (by omega), hs _ (by omega), hi', hi]
    simp only [Picture.uyvy, (row_col hc).1, (row_col hc).2]
    rw [if_neg (by omega), if_pos (by omega), if_neg (by omega), if_pos (by omega),
      show (4 * (k % (w / 2)) + 0) / 4 = k % (w / 2) by omega]
  · obtain ⟨hi, hi', hc⟩ := cell_site hw hk (show 2 < 4 by omega)
    have hlt := cellOff_lt hw hh hk
    simp only [uyvyFrame, packedFrame, Picture.planar]
    rw [hs _ (by omega), hs _ (by omega), hi', hi]
    simp only [Picture.uyvy, (row_col hc).1, (row_col hc).2]
    rw [if_neg (by omega), if_neg (by omega), if_neg (by omega), if_neg (by omega),
      show (4 * (k % (w / 2)) + 2) / 4 = k % (w / 2) by omega]

end Packing

/-- What a run of a 4:2:2 converter on a fresh log has to show: the planar
frame, each of its bytes stored once, and no byte outside the input read. -/
structure Converts (map capMap : Ptr ι) (w h : Nat) (F : Frame) (m : Mem ι) : Prop where
  bytes : ∀ i, i < w * h * 3 / 2 → m.byte (map + i) = F.bytes w h i
  stores : ∀ q, m.log.count (.store q) = if Span map (w * h * 3 / 2) q then 1 else 0
  loads : ∀ q, .load q ∈ m.log → Span capMap (2 * (w * h)) q

theorem converts_of_writes {map capMap : Ptr ι} {w h : Nat} {F G : Frame} {f : Ptr ι → UInt8}
    {m : Mem ι} (hw : w % 2 = 0) (hh : h % 2 = 0) (hs : F.Same w h G)
    (hm : Writes map w h F (Span capMap (2 * (w * h))) ⟨f, []⟩ (w * h) (w * h / 4) (w * h / 4) m) :
    Converts map capMap w h G m := by
  obtain ⟨_, h4, h6⟩ := frame_size hw hh
  have hsize : w * h + w * h / 4 + w * h / 4 = w * h * 3 / 2 := by omega
  refine ⟨fun i hi => ?_, fun q => ?_, fun q hq => ?_⟩
  · rw [hm.byte]
    exact (congrFun (putFrame_congr hs) _).trans (putFrame_bytes (by omega))
  · rw [hm.stored_once, hsize]; simp [once]
  · simpa using hm.loads q hq

/-- **The two 4:2:2 converters agree.** On the YUYV and on the UYVY packing of
one picture they write the same planar frame, once, from the packed bytes only. -/
theorem packed422_agree (P : Picture) {w h : Nat} (hw : w % 2 = 0) (hh : h % 2 = 0)
    {map capMap : Ptr ι} (hb : capMap.base ≠ map.base) {f g : Ptr ι → UInt8}
    (hf : ∀ i, i < 2 * (w * h) → f (capMap + i) = P.yuyv w i)
    (hg : ∀ i, i < 2 * (w * h) → g (capMap + i) = P.uyvy w i) :
    Converts map capMap w h (P.planar w) (convYuv422to420p map capMap w h ⟨f, []⟩) ∧
    Converts map capMap w h (P.planar w) (convUyvyto420p map capMap w h ⟨g, []⟩) :=
  ⟨converts_of_writes hw hh (yuyv_planar P hw _ hf hh) (convYuv422to420p_writes hb hw hh ⟨f, []⟩),
    converts_of_writes hw hh (uyvy_planar P hw _ hg hh) (convUyvyto420p_writes hb hw hh ⟨g, []⟩)⟩

/-- A 2 by 2 picture with a different sample everywhere. -/
def corners : Picture where
  y c r := UInt8.ofNat (10 + 2 * r + c)
  u _ r := UInt8.ofNat (100 + 3 * r)
  v _ r := UInt8.ofNat (200 + 5 * r)

theorem packed422_agree_corners :
    Converts (ι := Bool) ⟨true, 0⟩ ⟨false, 0⟩ 2 2 (corners.planar 2)
      (convYuv422to420p ⟨true, 0⟩ ⟨false, 0⟩ 2 2 ⟨fun p => corners.yuyv 2 p.off.toNat, []⟩) ∧
    Converts (ι := Bool) ⟨true, 0⟩ ⟨false, 0⟩ 2 2 (corners.planar 2)
      (convUyvyto420p ⟨true, 0⟩ ⟨false, 0⟩ 2 2 ⟨fun p => corners.uyvy 2 p.off.toNat, []⟩) :=
  packed422_agree corners (by decide) (by decide) (by decide)
    (fun i _ => by simp) (fun i _ => by simp)

end SmartPrince.Common.Yuv422Soundness

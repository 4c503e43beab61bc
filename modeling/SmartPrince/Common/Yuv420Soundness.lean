import SmartPrince.Lib.Plane
import SmartPrince.Common.Yuv420p
import SmartPrince.Common.VideoConv

/-! # The two converters from planar 4:2:0

`conv_yuv420p_to_gbr24` and `conv_yuv420p_to_gray` share one walk, which goes
back to the start of the chroma row after odd rows. A frame repeats its
chroma rows for the rows `2 * j` and `2 * j + 1`, so going back would be due
after even rows: row `y` gets its chroma from row `(y + 1) / 2`, and the last
row reads `w / 2` bytes behind the frame. -/
namespace SmartPrince.Common.Yuv420Soundness
open SmartPrince.Lib.Loop SmartPrince.Lib.Memory SmartPrince.Lib.Plane
open SmartPrince.Common.VideoConv SmartPrince.Common.Yuv420p

variable {ι : Type} [DecidableEq ι]

/-! ## Where a pixel comes from -/

/-- The luma, U and V byte of pixel `k` when row `y` takes chroma row `row y`. -/
structure Sites (ι : Type) where
  l : Ptr ι
  u : Ptr ι
  v : Ptr ι

def sites (row : Nat → Nat) (yuv : Ptr ι) (w h x y : Nat) : Sites ι where
  l := yuv + (y * w + x)
  u := uPlane yuv w h + (row y * (w / 2) + x / 2)
  v := vPlane yuv w h + (row y * (w / 2) + x / 2)

/-- The bytes of the pixel. -/
def Sites.pixel (s : Sites ι) (out : Rgb → List UInt8) (f : Ptr ι → UInt8) : List UInt8 :=
  out (rgbOf (f s.l) (f s.u) (f s.v))

def Sites.has (s : Sites ι) (q : Ptr ι) : Prop := q = s.l ∨ q = s.u ∨ q = s.v

/-- `m` holds at `rgb` the picture of the frame that `f` holds at `yuv`, `n` bytes a pixel. -/
def Renders (row : Nat → Nat) (out : Rgb → List UInt8) (n : Nat) (yuv rgb : Ptr ι) (w h : Nat)
    (f : Ptr ι → UInt8) (m : Mem ι) : Prop :=
  ∀ x y, x < w → y < h → ∀ j, j < n →
    m.byte (rgb + (n * (y * w + x) + j)) = ((sites row yuv w h x y).pixel out f).getD j 0

/-! ## The walk -/

/-- The chroma row the walk is at in row `y`. -/
def rowAhead (y : Nat) : Nat := (y + 1) / 2

def pixelTurn (out : Rgb → List UInt8) (n : Nat) (yuv rgb : Ptr ι) (w h x y : Nat) (m : Mem ι) :
    Mem ι :=
  let s := sites rowAhead yuv w h x y
  let (l, m) := m.load s.l
  let (u, m) := m.load s.u
  let (v, m) := m.load s.v
  m.put (rgb + n * (y * w + x)) (out (rgbOf l u v))

/-- The cursors at pixel `x` of row `y`. -/
def pixelCursor (n : Nat) (yuv rgb : Ptr ι) (w h y x : Nat) : Yuv420Cursor ι :=
  ⟨yuv + (y * w + x), uPlane yuv w h + (rowAhead y * (w / 2) + x / 2),
    vPlane yuv w h + (rowAhead y * (w / 2) + x / 2), rgb + n * (y * w + x)⟩

section Walk
variable {out : Rgb → List UInt8} {n : Nat} (hn : ∀ c, (out c).length = n) (yuv rgb : Ptr ι)
  {w h : Nat}
include hn

theorem yuv420Pixel_walk (x y : Nat) (m : Mem ι) :
    yuv420Pixel out x (pixelCursor n yuv rgb w h y x, m) =
      (pixelCursor n yuv rgb w h y (x + 1), pixelTurn out n yuv rgb w h x y m) := by
  have hrgb : n * (y * w + x) + n = n * (y * w + (x + 1)) := by ring
  by_cases hx : x % 2 = 1
  · simp only [yuv420Pixel, pixelCursor, pixelTurn, sites, if_pos hx, hn, Ptr.add_assoc, hrgb,
      show x / 2 + 1 = (x + 1) / 2 by omega, Nat.add_assoc]
  · simp only [yuv420Pixel, pixelCursor, pixelTurn, sites, if_neg hx, hn, Ptr.add_assoc, hrgb,
      show (x + 1) / 2 = x / 2 by omega, Nat.add_assoc]

omit [DecidableEq ι] hn in
/-- The rewind after odd rows leaves the cursors at the next row's start. -/
theorem pixelCursor_next (y : Nat) :
    (if y % 2 = 1 then
      { pixelCursor n yuv rgb w h y w with
        u := (pixelCursor n yuv rgb w h y w).u - w / 2
        v := (pixelCursor n yuv rgb w h y w).v - w / 2 }
    else pixelCursor n yuv rgb w h y w) = pixelCursor n yuv rgb w h (y + 1) 0 := by
  have he : y * w + w = (y + 1) * w + 0 := by ring
  simp only [pixelCursor, rowAhead, he]
  by_cases hy : y % 2 = 1
  · simp only [if_pos hy, Ptr.add_sub _ (Nat.le_add_left _ _), Nat.add_sub_cancel,
      show (y + 1 + 1) / 2 = (y + 1) / 2 by omega, Nat.zero_div, Nat.add_zero]
  · simp only [if_neg hy, show (y + 1 + 1) / 2 = (y + 1) / 2 + 1 by omega, Nat.add_one_mul,
      Nat.zero_div, Nat.add_zero]

theorem convYuv420p_walk (m : Mem ι) :
    convYuv420p out yuv rgb w h m =
      loop (h * w) (fun k => pixelTurn out n yuv rgb w h (k % w) (k / w)) m := by
  have hrows : (loop h (yuv420Row out w) (pixelCursor n yuv rgb w h 0 0, m)).2 =
      loop h (fun y => loop w fun x => pixelTurn out n yuv rgb w h x y) m := by
    rw [loop_walk (fun y => pixelCursor n yuv rgb w h y 0)
      (fun y => loop w fun x => pixelTurn out n yuv rgb w h x y) rfl]
    intro y m _
    rw [← pixelCursor_next yuv rgb, yuv420Row, loop_walk (pixelCursor n yuv rgb w h y)
      (fun x => pixelTurn out n yuv rgb w h x y) rfl
      fun x m _ => yuv420Pixel_walk hn yuv rgb x y m]
    by_cases hy : y % 2 = 1
    · simp only [if_pos hy]
    · simp only [if_neg hy]
  rw [← loop_nest h w fun y x => pixelTurn out n yuv rgb w h x y, ← hrows]
  simp [convYuv420p, pixelCursor, rowAhead, uPlane, vPlane]

end Walk

/-! ## What it writes and what it reads -/

/-- Memory `f` with the bytes of the first `k` pixels at `rgb`. -/
def rendering (out : Rgb → List UInt8) (n : Nat) (yuv rgb : Ptr ι) (w h : Nat) (f : Ptr ι → UInt8)
    (k : Nat) : Ptr ι → UInt8 :=
  patch rgb (n * k) (fun i =>
    ((sites rowAhead yuv w h (i / n % w) (i / n / w)).pixel out f).getD (i % n) 0) f

/-- After `k` pixels: their bytes are at `rgb`, and what was read is what they come from. -/
structure Rendered (out : Rgb → List UInt8) (n : Nat) (yuv rgb : Ptr ι) (w h : Nat)
    (f : Ptr ι → UInt8) (k : Nat) (m : Mem ι) : Prop where
  byte : m.byte = patch rgb (n * k) (fun i =>
    ((sites rowAhead yuv w h (i / n % w) (i / n / w)).pixel out f).getD (i % n) 0) f
  loads : ∀ q, .load q ∈ m.log ↔ ∃ i, i < k ∧ (sites rowAhead yuv w h (i % w) (i / w)).has q

section Result
variable {out : Rgb → List UInt8} {n : Nat} (hn : ∀ c, (out c).length = n) {yuv rgb : Ptr ι}
  (hb : yuv.base ≠ rgb.base) {w h : Nat} {f : Ptr ι → UInt8}
include hn hb

theorem pixelTurn_byte {k : Nat} {m : Mem ι} (hm : m.byte = rendering out n yuv rgb w h f k) :
    (pixelTurn out n yuv rgb w h (k % w) (k / w) m).byte = rendering out n yuv rgb w h f (k + 1) := by
  have hin : ∀ q : Ptr ι, q.base = yuv.base → m.byte q = f q := fun q hq => by
    rw [hm, rendering, patch_base (hq ▸ hb)]
  have hl := hin (sites rowAhead yuv w h (k % w) (k / w)).l rfl
  have hu := hin (sites rowAhead yuv w h (k % w) (k / w)).u rfl
  have hv := hin (sites rowAhead yuv w h (k % w) (k / w)).v rfl
  simp only [pixelTurn, Mem.load, Mem.put_byte, hn]
  rw [hl, hu, hv, Nat.div_add_mod', hm, rendering, rendering, Nat.mul_add_one n, ← patch_append]
  refine patch_congr fun i hi => ?_
  rw [Nat.mul_add_div (by omega), Nat.div_eq_of_lt hi, Nat.add_zero, Nat.mul_add_mod,
    Nat.mod_eq_of_lt hi, Sites.pixel]

theorem pixelTurn_rendered {k : Nat} {m : Mem ι} (hm : Rendered out n yuv rgb w h f k m) :
    Rendered out n yuv rgb w h f (k + 1) (pixelTurn out n yuv rgb w h (k % w) (k / w) m) := by
  refine ⟨pixelTurn_byte hn hb hm.byte, fun q => ?_⟩
  simp only [pixelTurn, Mem.load, Mem.load_mem_put, List.mem_cons, Access.load.injEq, hm.loads]
  constructor
  · rintro (h | h | h | ⟨i, hi, h⟩)
    · exact ⟨k, Nat.lt_succ_self k, .inr (.inr h)⟩
    · exact ⟨k, Nat.lt_succ_self k, .inr (.inl h)⟩
    · exact ⟨k, Nat.lt_succ_self k, .inl h⟩
    · exact ⟨i, Nat.lt_succ_of_lt hi, h⟩
  · rintro ⟨i, hi, h⟩
    rcases Nat.lt_succ_iff_lt_or_eq.mp hi with hi | rfl
    · exact .inr (.inr (.inr ⟨i, hi, h⟩))
    · rcases h with h | h | h
      · exact .inr (.inr (.inl h))
      · exact .inr (.inl h)
      · exact .inl h

theorem convYuv420p_rendered :
    Rendered out n yuv rgb w h f (h * w) (convYuv420p out yuv rgb w h ⟨f, []⟩) := by
  rw [convYuv420p_walk hn yuv rgb]
  refine loop_inv (Rendered out n yuv rgb w h f) ⟨by simp, by simp⟩ fun k m _ hm => ?_
  exact pixelTurn_rendered hn hb hm

/-- The picture is at `rgb`, and everything else is as before. -/
theorem convYuv420p_byte (m : Mem ι) :
    (convYuv420p out yuv rgb w h m).byte = rendering out n yuv rgb w h m.byte (h * w) := by
  rw [convYuv420p_walk hn yuv rgb]
  refine loop_inv (fun k (t : Mem ι) => t.byte = rendering out n yuv rgb w h m.byte k)
    (by simp [rendering]) fun k t _ ht => ?_
  exact pixelTurn_byte hn hb ht

/-- Row `y` is rendered with the chroma of row `(y + 1) / 2`. -/
theorem convYuv420p_renders (m : Mem ι) :
    Renders rowAhead out n yuv rgb w h m.byte (convYuv420p out yuv rgb w h m) := by
  intro x y hx hy j hj
  have hlt : n * (y * w + x) + j < n * (h * w) := by
    have hk := Nat.mul_le_mul_left n (Nat.succ_le_of_lt (site_lt hx hy))
    rw [Nat.mul_succ, Nat.mul_comm w] at hk
    omega
  rw [convYuv420p_byte hn hb, rendering, patch_in hlt, Nat.mul_add_div (by omega), Nat.div_eq_of_lt hj, Nat.add_zero,
    Nat.mul_add_mod, Nat.mod_eq_of_lt hj, site_div hx, site_mod hx]

/-- The first V byte of the last row is the byte behind the frame. -/
theorem convYuv420p_behind (hw : w % 2 = 0) (hh : h % 2 = 0) (hw0 : 2 ≤ w) (hh0 : 2 ≤ h) :
    .load (yuv + w * h * 3 / 2) ∈ (convYuv420p out yuv rgb w h ⟨f, []⟩).log := by
  obtain ⟨h4, _, h6⟩ := frame_size hw hh
  refine ((convYuv420p_rendered hn hb).loads _).mpr
    ⟨(h - 1) * w, ?_, .inr (.inr ?_)⟩
  · exact Nat.mul_lt_mul_of_pos_right (by omega) (by omega)
  · rw [Nat.mul_mod_left, Nat.mul_div_cancel _ (by omega)]
    simp only [sites, rowAhead, vPlane_add, show (h - 1 + 1) / 2 = h / 2 by omega, Nat.zero_div,
      Nat.add_zero, Nat.mul_comm (h / 2), h4]
    congr 1; omega

end Result

theorem gbr24Bytes_length (c : Rgb) : (gbr24Bytes c).length = 3 := rfl

theorem grayBytes_length (c : Rgb) : ((fun c => [grayByte c]) c).length = 1 := rfl

/-- What the frame's layout asks of a converter: row `y` is rendered with the
chroma of row `y / 2`, and nothing outside the frame is read. -/
structure OwnRow (out : Rgb → List UInt8) (n : Nat) (yuv rgb : Ptr ι) (w h : Nat)
    (f : Ptr ι → UInt8) (m : Mem ι) : Prop where
  renders : Renders (· / 2) out n yuv rgb w h f m
  inside : ∀ q, .load q ∈ m.log → Span yuv (w * h * 3 / 2) q

omit [DecidableEq ι] in
theorem not_ownRow {out : Rgb → List UInt8} {n : Nat} {yuv rgb : Ptr ι} {w h : Nat}
    {f : Ptr ι → UInt8} {m : Mem ι} (hm : .load (yuv + w * h * 3 / 2) ∈ m.log) :
    ¬ OwnRow out n yuv rgb w h f m := fun ho =>
  absurd (span_add.mp (ho.inside _ hm)) (Nat.lt_irrefl _)

/-- **The walk is a chroma row ahead in every odd row.** On every even frame
both converters render row `y` with the chroma of row `(y + 1) / 2` and read
behind the frame; on none do they do what its layout asks. -/
theorem conv_yuv420p_row_ahead {w h : Nat} (hw : w % 2 = 0) (hh : h % 2 = 0) (hw0 : 2 ≤ w)
    (hh0 : 2 ≤ h) {yuv rgb : Ptr ι} (hb : yuv.base ≠ rgb.base) (f : Ptr ι → UInt8) :
    (Renders rowAhead gbr24Bytes 3 yuv rgb w h f (convYuv420pToGbr24 yuv rgb w h ⟨f, []⟩) ∧
      ¬ OwnRow gbr24Bytes 3 yuv rgb w h f (convYuv420pToGbr24 yuv rgb w h ⟨f, []⟩)) ∧
    (Renders rowAhead (fun c => [grayByte c]) 1 yuv rgb w h f
        (convYuv420pToGray yuv rgb w h ⟨f, []⟩) ∧
      ¬ OwnRow (fun c => [grayByte c]) 1 yuv rgb w h f (convYuv420pToGray yuv rgb w h ⟨f, []⟩)) :=
  ⟨⟨convYuv420p_renders gbr24Bytes_length hb _,
      not_ownRow (convYuv420p_behind gbr24Bytes_length hb hw hh hw0 hh0)⟩,
    ⟨convYuv420p_renders grayBytes_length hb _,
      not_ownRow (convYuv420p_behind grayBytes_length hb hw hh hw0 hh0)⟩⟩

/-- A 2 by 2 frame: grey luma, U and V at 128 inside the frame, 0 behind it. -/
def flat (p : Ptr Bool) : UInt8 := if p.off < 6 then 128 else 0

theorem conv_yuv420p_row_ahead_flat :
    (Renders rowAhead gbr24Bytes 3 ⟨false, 0⟩ ⟨true, 0⟩ 2 2 flat
        (convYuv420pToGbr24 ⟨false, 0⟩ ⟨true, 0⟩ 2 2 ⟨flat, []⟩) ∧
      ¬ OwnRow gbr24Bytes 3 ⟨false, 0⟩ ⟨true, 0⟩ 2 2 flat
        (convYuv420pToGbr24 ⟨false, 0⟩ ⟨true, 0⟩ 2 2 ⟨flat, []⟩)) ∧
    (Renders rowAhead (fun c => [grayByte c]) 1 ⟨false, 0⟩ ⟨true, 0⟩ 2 2 flat
        (convYuv420pToGray ⟨false, 0⟩ ⟨true, 0⟩ 2 2 ⟨flat, []⟩) ∧
      ¬ OwnRow (fun c => [grayByte c]) 1 ⟨false, 0⟩ ⟨true, 0⟩ 2 2 flat
        (convYuv420pToGray ⟨false, 0⟩ ⟨true, 0⟩ 2 2 ⟨flat, []⟩)) :=
  conv_yuv420p_row_ahead (by decide) (by decide) (by decide) (by decide) (by decide) flat

/-- On that frame the grey picture's second row takes V from behind the frame. -/
theorem conv_yuv420p_flat_fails :
    ¬ OwnRow (fun c => [grayByte c]) 1 ⟨false, 0⟩ ⟨true, 0⟩ 2 2 flat
      (convYuv420pToGray ⟨false, 0⟩ ⟨true, 0⟩ 2 2 ⟨flat, []⟩) := fun ho => by
  have hbyte := ho.renders 0 1 (by decide) (by decide) 0 (by decide)
  revert hbyte
  decide +kernel

end SmartPrince.Common.Yuv420Soundness

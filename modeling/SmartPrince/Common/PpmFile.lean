import SmartPrince.Common.MaskFile
import SmartPrince.Common.Yuv420Soundness

/-! # Pictures in PPM format

`put_ppm_bgr24_file` and `put_ppm_gray_file` go through a frame as the two
converters from planar 4:2:0 do, and write each pixel into the file instead.
What they write is what the converters store. -/
namespace SmartPrince.Common.PpmFile
open SmartPrince.Lib.CString SmartPrince.Lib.Loop SmartPrince.Lib.Memory SmartPrince.Lib.Plane
open SmartPrince.Common.MaskFile SmartPrince.Common.VideoConv SmartPrince.Common.Yuv420p
open SmartPrince.Common.Yuv420Soundness

variable {ι : Type} [DecidableEq ι]

/-! ## The two writers -/

structure PpmCursor (ι : Type) where
  l : Ptr ι
  u : Ptr ι
  v : Ptr ι

/-- Pixel `x` of a row; `out` gives the bytes of `rgb`, and `image` the bytes in memory. -/
def ppmPixel (out : Rgb → List UInt8) (image : Ptr ι → UInt8) (x : Nat)
    (s : PpmCursor ι × List UInt8) : PpmCursor ι × List UInt8 :=
  let (c, picture) := s
  let rgb := out (rgbOf (image c.l) (image c.u) (image c.v))
  let c := { c with l := c.l + 1 }
  let c := if x % 2 = 1 then { c with u := c.u + 1, v := c.v + 1 } else c
  (c, picture ++ rgb)

def ppmRow (out : Rgb → List UInt8) (image : Ptr ι → UInt8) (width y : Nat)
    (s : PpmCursor ι × List UInt8) : PpmCursor ι × List UInt8 :=
  let (c, picture) := loop width (ppmPixel out image) s
  if y % 2 = 1 then ({ c with u := c.u - width / 2, v := c.v - width / 2 }, picture)
  else (c, picture)

/-- The walk the two writers share, and the file. -/
def putPpm (out : Rgb → List UInt8) (image : Ptr ι → UInt8) (yuv : Ptr ι) (width height : Nat) :
    List UInt8 :=
  let u := yuv + width * height
  let v := u + width * height / 4
  (loop height (ppmRow out image width) (⟨yuv, u, v⟩, header (ofText "P6") width height)).2

def putPpmBgr24File (image : Ptr ι → UInt8) (yuv : Ptr ι) (width height : Nat) : List UInt8 :=
  putPpm gbr24Bytes image yuv width height

def putPpmGrayFile (image : Ptr ι → UInt8) (yuv : Ptr ι) (width height : Nat) : List UInt8 :=
  putPpm (fun c => List.replicate 3 (grayByte c)) image yuv width height

/-! ## The walk -/

section Walk
variable {out : Rgb → List UInt8} {image : Ptr ι → UInt8} (yuv : Ptr ι) {w h : Nat}

/-- The cursors at pixel `x` of row `y`. -/
def ppmCursor (yuv : Ptr ι) (w h y x : Nat) : PpmCursor ι :=
  ⟨(sites rowAhead yuv w h x y).l, (sites rowAhead yuv w h x y).u, (sites rowAhead yuv w h x y).v⟩

omit [DecidableEq ι] in
theorem ppmPixel_walk (x y : Nat) (picture : List UInt8) :
    ppmPixel out image x (ppmCursor yuv w h y x, picture) =
      (ppmCursor yuv w h y (x + 1), picture ++ (sites rowAhead yuv w h x y).pixel out image) := by
  by_cases hx : x % 2 = 1
  · have hhalf : (x + 1) / 2 = x / 2 + 1 := by omega
    simp only [ppmPixel, ppmCursor, sites, Sites.pixel, if_pos hx, Ptr.add_assoc, Nat.add_assoc, hhalf]
  · have hhalf : (x + 1) / 2 = x / 2 := by omega
    simp only [ppmPixel, ppmCursor, sites, Sites.pixel, if_neg hx, Ptr.add_assoc, Nat.add_assoc, hhalf]

omit [DecidableEq ι] in
/-- The rewind after odd rows leaves the cursors at the next row's start. -/
theorem ppmCursor_next (y : Nat) :
    (if y % 2 = 1 then
      { ppmCursor yuv w h y w with
        u := (ppmCursor yuv w h y w).u - w / 2
        v := (ppmCursor yuv w h y w).v - w / 2 }
    else ppmCursor yuv w h y w) = ppmCursor yuv w h (y + 1) 0 := by
  have hend : y * w + w = (y + 1) * w + 0 := (Nat.succ_mul y w).symm
  simp only [ppmCursor, sites, rowAhead, hend]
  by_cases hy : y % 2 = 1
  · have hrow : (y + 1 + 1) / 2 = (y + 1) / 2 := by omega
    simp only [if_pos hy, Ptr.add_sub _ (Nat.le_add_left _ _), Nat.add_sub_cancel, hrow, Nat.zero_div,
      Nat.add_zero]
  · have hrow : (y + 1 + 1) / 2 = (y + 1) / 2 + 1 := by omega
    simp only [if_neg hy, hrow, Nat.add_one_mul, Nat.zero_div, Nat.add_zero]

omit [DecidableEq ι] in
theorem ppmRow_walk (y : Nat) (picture : List UInt8) :
    ppmRow out image w y (ppmCursor yuv w h y 0, picture) =
      (ppmCursor yuv w h (y + 1) 0,
        loop w (fun x picture => picture ++ (sites rowAhead yuv w h x y).pixel out image) picture) := by
  rw [← ppmCursor_next yuv, ppmRow, loop_walk (ppmCursor yuv w h y)
    (fun x picture => picture ++ (sites rowAhead yuv w h x y).pixel out image) rfl
    fun x picture _ => ppmPixel_walk yuv x y picture]
  by_cases hy : y % 2 = 1
  · simp only [if_pos hy]
  · simp only [if_neg hy]

omit [DecidableEq ι] in
/-- The file: its header, and pixel after pixel. -/
theorem putPpm_eq : putPpm out image yuv w h = header (ofText "P6") w h ++
    (List.range (h * w)).flatMap fun k => (sites rowAhead yuv w h (k % w) (k / w)).pixel out image := by
  have hstart : (⟨yuv, yuv + w * h, yuv + w * h + w * h / 4⟩ : PpmCursor ι) = ppmCursor yuv w h 0 0 := by
    simp [ppmCursor, sites, rowAhead, uPlane, vPlane]
  have hwalk := loop_walk (fun y => ppmCursor yuv w h y 0) _ rfl
    (fun y picture _ => @ppmRow_walk _ out image yuv w h y picture)
    (header (ofText "P6") w h) (n := h)
  rw [putPpm, hstart, hwalk]
  dsimp only
  rw [loop_nest h w fun y x picture => picture ++ (sites rowAhead yuv w h x y).pixel out image,
    loop_append]

end Walk

/-! ## Against the converters -/

omit [DecidableEq ι] in
/-- The pixel that a converter stores is the one that is written. -/
theorem pixel_stored {out : Rgb → List UInt8} {n : Nat} {yuv rgb : Ptr ι} {w h : Nat}
    {f : Ptr ι → UInt8} {m : Mem ι} (hn : ∀ c, (out c).length = n)
    (hm : Renders rowAhead out n yuv rgb w h f m) {k : Nat} (hk : k < h * w) :
    (sites rowAhead yuv w h (k % w) (k / w)).pixel out f =
      (List.range n).map fun j => m.byte (rgb + (n * k + j)) := by
  have hw : 0 < w := Nat.pos_of_ne_zero fun h0 => by simp [h0] at hk
  have hy : k / w < h := Nat.div_lt_of_lt_mul (by rwa [Nat.mul_comm])
  refine List.ext_getElem (by simp [Sites.pixel, hn]) fun j hj hj' => ?_
  have hjn : j < n := by simpa using hj'
  have hbyte := hm (k % w) (k / w) (Nat.mod_lt _ hw) hy j hjn
  rw [Nat.div_add_mod'] at hbyte
  rw [List.getElem_map, List.getElem_range, hbyte, List.getD_eq_getElem _ _ hj]

/-- **The two writers agree with the two converters**: behind the header stand the
bytes that the one stores, and three times each byte that the other does. -/
theorem put_ppm_agrees {yuv rgb : Ptr ι} (hb : yuv.base ≠ rgb.base) (w h : Nat) (m : Mem ι) :
    putPpmBgr24File m.byte yuv w h = header (ofText "P6") w h ++
        (List.range (3 * (h * w))).map (fun i => (convYuv420pToGbr24 yuv rgb w h m).byte (rgb + i)) ∧
      putPpmGrayFile m.byte yuv w h = header (ofText "P6") w h ++
        (List.range (h * w)).flatMap fun k =>
          List.replicate 3 ((convYuv420pToGray yuv rgb w h m).byte (rgb + k)) := by
  constructor
  · rw [putPpmBgr24File, putPpm_eq, ← flatMap_groups]
    congr 1
    refine List.flatMap_congr fun k hk => ?_
    exact pixel_stored gbr24Bytes_length (convYuv420p_renders gbr24Bytes_length hb m) (List.mem_range.mp hk)
  · rw [putPpmGrayFile, putPpm_eq]
    congr 1
    refine List.flatMap_congr fun k hk => ?_
    have hpixel := pixel_stored grayBytes_length (convYuv420p_renders grayBytes_length hb m)
      (List.mem_range.mp hk)
    have hgray := (List.cons.inj hpixel).1
    rw [Nat.one_mul] at hgray
    exact congrArg (List.replicate 3) hgray

theorem put_ppm_agrees_flat :
    putPpmBgr24File flat ⟨false, 0⟩ 2 2 = header (ofText "P6") 2 2 ++
        (List.range 12).map (fun i =>
          (convYuv420pToGbr24 ⟨false, 0⟩ ⟨true, 0⟩ 2 2 ⟨flat, []⟩).byte ((⟨true, 0⟩ : Ptr Bool) + i)) :=
  (@put_ppm_agrees _ _ ⟨false, 0⟩ ⟨true, 0⟩ nofun 2 2 ⟨flat, []⟩).1

end SmartPrince.Common.PpmFile

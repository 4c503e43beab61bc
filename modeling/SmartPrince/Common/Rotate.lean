import SmartPrince.Lib.Word
import SmartPrince.Common.CameraState

/-! # Picture rotation, `rotate.c`

The two quarter turns copy into a temporary buffer, the half turn swaps 32-bit
words in place. The pointer walks of the source are kept: a `for` over a
pointer that moves by one is a counted loop whose cursors are the pointers. -/
namespace SmartPrince.Common.Rotate
open SmartPrince.Lib.Loop SmartPrince.Lib.Memory SmartPrince.Lib.Word SmartPrince.Lib.CInt
open SmartPrince.Common.CameraState

variable {ι : Type} [DecidableEq ι]

/-- `rot__bswap_constant_32` -/
def swapBytes (x : UInt32) : UInt32 :=
  ((x &&& 0xff000000) >>> 24) ||| ((x &&& 0x00ff0000) >>> 8) |||
    ((x &&& 0x0000ff00) <<< 8) ||| ((x &&& 0x000000ff) <<< 24)

/-- `while (nsrc < ndst)`, both pointers to words. -/
def reverseQuads (nsrc ndst : Ptr ι) (mem : Mem ι) : Mem ι :=
  if nsrc.off < ndst.off then
    let (last, mem) := loadWord mem ndst
    let tmp := swapBytes last
    let (first, mem) := loadWord mem nsrc
    let mem := storeWord mem ndst (swapBytes first)
    let mem := storeWord mem nsrc tmp
    reverseQuads (nsrc + 4) (ndst - 4) mem
  else mem
termination_by (ndst.off - nsrc.off).toNat
decreasing_by simp only [Ptr.add_off, Ptr.sub_off]; omega

def reverseInplaceQuad (src : Ptr ι) (size : Nat) (mem : Mem ι) : Mem ι :=
  reverseQuads src (src + size - 4) mem

/-- `*dst++ = *src; src -= width;` -/
def cwPixel (width _j : Nat) : (Ptr ι × Ptr ι) × Mem ι → (Ptr ι × Ptr ι) × Mem ι
  | ((src, dst), mem) => ((src - width, dst + 1), mem.copy dst src)

def cwColumn (width height _x : Nat) : (Ptr ι × Ptr ι) × Mem ι → (Ptr ι × Ptr ι) × Mem ι
  | ((base, dst), mem) =>
    let ((_, dst), mem) := loop height (cwPixel width) ((base, dst), mem)
    ((base + 1, dst), mem)

def rot90cw (src dst : Ptr ι) (size width height : Nat) (mem : Mem ι) : Mem ι :=
  let endp := src + size
  (loop width (cwColumn width height) ((endp - width, dst), mem)).2

/-- `*dst-- = *src; src -= width;` -/
def ccwPixel (width _j : Nat) : (Ptr ι × Ptr ι) × Mem ι → (Ptr ι × Ptr ι) × Mem ι
  | ((src, dst), mem) => ((src - width, dst - 1), mem.copy dst src)

def ccwColumn (width height _x : Nat) : (Ptr ι × Ptr ι) × Mem ι → (Ptr ι × Ptr ι) × Mem ι
  | ((base, dst), mem) =>
    let ((_, dst), mem) := loop height (ccwPixel width) ((base, dst), mem)
    ((base + 1, dst), mem)

def rot90ccw (src dst : Ptr ι) (size width height : Nat) (mem : Mem ι) : Mem ι :=
  let endp := src + size
  let dst := dst + size - 1
  (loop width (ccwColumn width height) ((endp - width, dst), mem)).2

/-- `(cnt->conf.rotate_deg % 90) > 0` with the truncated remainder of C. -/
def rotateDegrees (cnt : Context) : Context :=
  if cnt.conf.rotateDeg.tmod 90 > 0 then
    { cnt with
      conf := { cnt.conf with rotateDeg := 0 }  -- disable rotation
      rotateData := { cnt.rotateData with degrees := 0 } }
  else
    { cnt with rotateData := { cnt.rotateData with degrees := cnt.conf.rotateDeg.tmod 360 } }

def rotateInit (cnt : Context) : Context :=
  let cnt := { cnt with rotateData := { cnt.rotateData with tempBuf := none } }
  let cnt := rotateDegrees cnt
  -- 1. Transfer capture dimensions into cap_width and cap_height.
  let cnt := { cnt with rotateData := { cnt.rotateData with
    capWidth := cnt.imgs.width, capHeight := cnt.imgs.height } }
  let quarter := cnt.rotateData.degrees = 90 ∨ cnt.rotateData.degrees = 270
  -- 2. "Swap" imgs.width and imgs.height.
  let cnt :=
    if quarter then
      { cnt with imgs := { cnt.imgs with
        width := cnt.rotateData.capHeight, height := cnt.rotateData.capWidth } }
    else cnt
  if cnt.rotateData.degrees = 0 then cnt
  else if cnt.imgs.type = paletteYuv420p ∨ cnt.imgs.type = paletteGrey then
    let size :=
      if cnt.imgs.type = paletteYuv420p then yuvBytes cnt.imgs.width cnt.imgs.height
      else int (cnt.imgs.width * cnt.imgs.height)
    if quarter then
      { cnt with rotateData := { cnt.rotateData with tempBuf := mymalloc size } }
    else cnt
  else { cnt with rotateData := { cnt.rotateData with degrees := 0 } }  -- Unsupported palette

/-- `cnt->rotate_data.temp_buf` -/
def tempBuf : Ptr Buf := ⟨.tempBuf, 0⟩

/-- A quarter turn of the planes into the temporary buffer, then the copy back. -/
def rotateQuarter (turn : Ptr Buf → Ptr Buf → Nat → Nat → Nat → Mem Buf → Mem Buf)
    (cnt : Context) (map : Ptr Buf) (mem : Mem Buf) : Mem Buf :=
  let width := cnt.rotateData.capWidth
  let height := cnt.rotateData.capHeight
  let wh := width * height
  let wh4 := wh / 4
  -- first do the Y part
  let mem := turn map tempBuf wh width height mem
  if cnt.imgs.type = paletteYuv420p then
    -- then do U and V
    let mem := turn (map + wh) (tempBuf + wh) wh4 (width / 2) (height / 2) mem
    let mem := turn (map + wh + wh4) (tempBuf + wh + wh4) wh4 (width / 2) (height / 2) mem
    mem.memcpy map tempBuf (wh * 3 / 2)
  else mem.memcpy map tempBuf wh

def rotateMap (cnt : Context) (map : Ptr Buf) (mem : Mem Buf) : Int × Mem Buf :=
  let deg := cnt.rotateData.degrees
  let wh := cnt.rotateData.capWidth * cnt.rotateData.capHeight
  let wh4 := wh / 4
  if deg = 90 then (0, rotateQuarter rot90cw cnt map mem)
  else if deg = 180 then
    let mem := reverseInplaceQuad map wh mem
    if cnt.imgs.type = paletteYuv420p then
      let mem := reverseInplaceQuad (map + wh) wh4 mem
      (0, reverseInplaceQuad (map + wh + wh4) wh4 mem)
    else (0, mem)
  else if deg = 270 then (0, rotateQuarter rot90ccw cnt map mem)
  else (-1, mem)  -- invalid

end SmartPrince.Common.Rotate

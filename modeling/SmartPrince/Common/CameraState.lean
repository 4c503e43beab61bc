import SmartPrince.Lib.CInt
import SmartPrince.Lib.Memory

/-! # The camera's context

The fields of `struct context`, `struct config`, `struct images`,
`struct rotdata` and `struct video_dev` that the capture path reads or sets.
A buffer pointer of the source is here the number of bytes `mymalloc` was
asked for, `none` while it is `NULL`; the bytes themselves live in memory
objects named by `Buf`. -/
namespace SmartPrince.Common.CameraState
open SmartPrince.Lib.Memory SmartPrince.Lib.CInt

/-! ## `VIDEO_PALETTE_*` -/

def paletteGrey : Nat := 1
def paletteRgb24 : Nat := 4
def paletteYuv422 : Nat := 7
def paletteYuyv : Nat := 8
def paletteYuv420p : Nat := 15

/-! ## Sizes

They are computed in `int`s. -/

/-- `(width * height * 3) / 2` -/
def yuvBytes (width height : Nat) : Int := (int (int (width * height) * 3)).tdiv 2

theorem yuvBytes_eq {width height : Nat} (h : width * height * 3 < 2 ^ 31) :
    yuvBytes width height = (width * height * 3 / 2 : Nat) := by
  have hint : int (int (width * height : Nat) * 3) = (width * height * 3 : Nat) := by
    rw [int_int_mul, ← int_natCast h, Nat.cast_mul _ 3]
    rfl
  rw [yuvBytes, ← Nat.cast_mul, hint, Int.ofNat_tdiv]
  rfl

/-- A size that does not fit is short even of the luma. -/
theorem yuvBytes_overflow {width height : Nat} (h : 2 ^ 31 ≤ width * height * 3) :
    yuvBytes width height < (width * height : Nat) := by
  rw [yuvBytes, ← Nat.cast_mul, int_int_mul]
  generalize width * height = pixels at h ⊢
  have hlt := int_lt (pixels * 3)
  have hle : int (pixels * 3) ≤ pixels * 3 - 2 ^ 32 := int_le_of_overflow (by omega)
  generalize int (pixels * 3) = bytes at hlt hle ⊢
  rcases Int.lt_or_le bytes 0 with hneg | hpos
  · have hdiv : 0 ≤ (-bytes).tdiv 2 := Int.tdiv_nonneg (by omega) (by decide)
    rw [Int.neg_tdiv] at hdiv
    omega
  · rw [Int.tdiv_eq_ediv_of_nonneg hpos]
    omega

example : yuvBytes 32 44739248 = 256 := by decide

/-- The bytes `mymalloc` allocates; none for a negative number, of which `malloc`
makes more than there is, and `mymalloc` the end of the program. -/
def mymalloc (nbytes : Int) : Option Nat := if nbytes < 0 then none else some nbytes.toNat

@[simp] theorem mymalloc_natCast (n : Nat) : mymalloc n = some n := if_neg (by omega)

/-- The memory objects of the capture path. -/
inductive Buf where
  | imageVirgin
  | commonBuffer
  | tempBuf
  | ref
  | out
  | frame (index : Nat)  -- `s->buffers[index].ptr`
  | yuv (plane : Fin 3)  -- what `mjpegtoyuv420p` allocates
  deriving DecidableEq, Repr

/-- Where `tsk->imgs.image_virgin` points. -/
def imageVirgin : Ptr Buf := ⟨.imageVirgin, 0⟩

structure Config where
  v4l2Palette : Nat
  quality : Int
  rotateDeg : Int
  ppm : Nat
  autobright : Bool
  brightness : Int
  contrast : Int
  saturation : Int
  hue : Int
  input : Int
  norm : Int
  frequency : Nat
  tunerNumber : Int
  frameLimit : Int
  roundrobinSkip : Int
  deriving Repr

structure Images where
  width : Nat
  height : Nat
  type : Nat
  size : Int
  motionsize : Int
  imageVirgin : Option Nat
  ref : Option Nat
  out : Option Nat
  commonBuffer : Option Nat
  deriving Repr

structure RotData where
  tempBuf : Option Nat
  degrees : Int
  capWidth : Nat
  capHeight : Nat
  deriving Repr

structure Context where
  conf : Config
  imgs : Images
  rotateData : RotData
  videoDev : Int
  deriving Repr

structure VideoDev where
  usageCount : Nat
  fd : Int
  input : Int
  width : Nat
  height : Nat
  brightness : Int
  contrast : Int
  saturation : Int
  hue : Int
  freq : Nat
  tunerNumber : Int
  fps : Nat
  owner : Int
  v4l2 : Bool
  v4lFmt : Nat
  v4lBufsize : Int
  deriving Repr

/-- The bytes allocated for a buffer of the context, none where the pointer is `NULL`. -/
def Context.allocated (tsk : Context) : Buf → Nat
  | .imageVirgin => tsk.imgs.imageVirgin.getD 0
  | .commonBuffer => tsk.imgs.commonBuffer.getD 0
  | .tempBuf => tsk.rotateData.tempBuf.getD 0
  | .ref => tsk.imgs.ref.getD 0
  | .out => tsk.imgs.out.getD 0
  | .frame _ => 0
  | .yuv _ => 0

/-- `memset(tsk, 0, sizeof(struct context))` -/
def Context.zero : Context where
  conf := {
    v4l2Palette := 0, quality := 0, rotateDeg := 0, ppm := 0, autobright := false
    brightness := 0, contrast := 0, saturation := 0, hue := 0, input := 0, norm := 0
    frequency := 0, tunerNumber := 0, frameLimit := 0, roundrobinSkip := 0 }
  imgs := {
    width := 0, height := 0, type := 0, size := 0, motionsize := 0
    imageVirgin := none, ref := none, out := none, commonBuffer := none }
  rotateData := { tempBuf := none, degrees := 0, capWidth := 0, capHeight := 0 }
  videoDev := 0

def VideoDev.zero : VideoDev where
  usageCount := 0
  fd := 0
  input := 0
  width := 0
  height := 0
  brightness := 0
  contrast := 0
  saturation := 0
  hue := 0
  freq := 0
  tunerNumber := 0
  fps := 0
  owner := 0
  v4l2 := false
  v4lFmt := 0
  v4lBufsize := 0

end SmartPrince.Common.CameraState

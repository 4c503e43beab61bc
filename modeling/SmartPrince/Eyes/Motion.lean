import SmartPrince.Common.Video

/-! # The watching eye, `motion.c`

`_motion_init`: the sizes, the start of the camera and the buffers. Those of
the clock's structures are left out. -/
namespace SmartPrince.Eyes.Motion
open SmartPrince.Lib.Program SmartPrince.Lib.CInt
open SmartPrince.Common.CameraState SmartPrince.Common.V4l2 SmartPrince.Common.Video
open SmartPrince.Common.Rotate

variable {δ : Type} (D : Driver δ)

/-- `tsk->conf.ppm` and `tsk->imgs.motionsize` by the colour mode. -/
def colorMode (color : Int) (dev : VideoDev) (tsk : Context) : Context :=
  if color ≠ 0 then
    { tsk with
      conf := { tsk.conf with ppm := paletteYuv420p }
      imgs := { tsk.imgs with motionsize := int (int (dev.width * dev.height) * 3) } }
  else
    { tsk with
      conf := { tsk.conf with ppm := paletteGrey }
      imgs := { tsk.imgs with motionsize := int (dev.width * dev.height) } }

/-- The buffers of the images. -/
def allocateImages (tsk : Context) : Context :=
  { tsk with imgs := { tsk.imgs with
    imageVirgin := mymalloc tsk.imgs.size
    ref := mymalloc tsk.imgs.motionsize
    out := mymalloc tsk.imgs.motionsize } }

def motionInit (color : Int) : Prog (Cam δ) Int := do
  modify fun c => { c with viddev := { c.viddev with
    v4lFmt := paletteYuv420p
    v4lBufsize := yuvBytes c.viddev.width c.viddev.height } }
  modify fun c => { c with tsk := { c.tsk with
    imgs := { c.tsk.imgs with width := c.viddev.width, height := c.viddev.height }
    conf := { c.tsk.conf with quality := 100 } } }
  let videoDev ← videoV4l2Start D
  modify fun c => { c with tsk := { c.tsk with videoDev } }
  if videoDev < 0 then return -1
  else
    modify fun c => { c with tsk := allocateImages (colorMode color c.viddev c.tsk) }
    modify fun c => { c with tsk := rotateInit { c.tsk with
      conf := { c.tsk.conf with rotateDeg := 90 } } }
    return 0

end SmartPrince.Eyes.Motion

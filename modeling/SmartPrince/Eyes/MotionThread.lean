import SmartPrince.Lib.Watch
import SmartPrince.Eyes.Motion

/-! # The start of the watching thread, `motion_thread_start`

Three levels of functions use and release `VideoDevice`. Here are those of
`video.c` and `motion.c` that hold a pointer to it once more, with a note for
each use. The structure the private pointer leads to is noted too: `NULL` is
its value before the start and after one that failed. -/
namespace SmartPrince.Eyes.MotionThread
open SmartPrince.Lib.Program SmartPrince.Lib.Watch
open SmartPrince.Common.CameraState SmartPrince.Common.V4l2 SmartPrince.Common.Rotate
open SmartPrince.Common.Video (v4l2GetCapability v4l2SelectInput v4l2SetPixFormat v4l2ScanControls
  v4l2SetMmap inDefault startImages startDevice)
open SmartPrince.Eyes.Motion (colorMode allocateImages)

/-- What is done with the structure and with its private pointer. -/
inductive Use where
  | device                 -- a field is read or written
  | source (there : Bool)  -- `v4l2_private` is dereferenced, and whether it is not `NULL`
  | free
  deriving DecidableEq, Repr

variable {δ : Type} (D : Driver δ)

abbrev Watched (δ : Type) : Type := Logged (Cam δ) Use

def useSource : Prog (Watched δ) PUnit := do
  let c ← act get
  note (.source c.v4l2Private)

/-- The functions called are handed `s`, not the device. -/
def v4l2StartSteps (width height : Nat) (input norm : Int) (freq : Nat) :
    Prog (Watched δ) Bool := do
  useSource
  if (← act (v4l2GetCapability D)) ≠ 0 then return false
  else
    useSource
    if (← act (v4l2SelectInput D input norm freq)) ≠ 0 then return false
    else
      useSource
      let (ret, _, _) ← act (v4l2SetPixFormat D width height)
      if ret ≠ 0 then return false
      else
        useSource
        if (← act (v4l2ScanControls D)) ≠ 0 then return false
        else
          useSource
          if (← act (v4l2SetMmap D)) ≠ 0 then return false
          else return true

def v4l2Start (width height : Nat) (input norm : Int) (freq : Nat) : Prog (Watched δ) Bool := do
  note .device
  act <| modify fun c => { c with
    v4l2Private := true
    s := { SrcV4l2.zero with fd := c.viddev.fd, fps := c.tsk.conf.frameLimit, pframe := -1 } }
  useSource
  if (← v4l2StartSteps D width height input norm freq) then
    note .device
    return true
  else
    note .device
    act <| modify fun c => { c with v4l2Private := false, viddev := { c.viddev with v4l2 := false } }
    return false

def videoV4l2Start : Prog (Watched δ) Int := do
  note .device
  match ← act (xioctl D .openDevice) with
  | .error _ =>
    note .free
    return -2
  | .ok (fd : Nat) =>
    note .device
    act <| modify fun c => { c with viddev := startDevice fd c.viddev }
    let dev := (← act get).viddev
    if (← v4l2Start D dev.width dev.height inDefault 0 0) then
      note .device
      act <| modify fun c => { c with tsk := { c.tsk with imgs := startImages c.viddev c.tsk.imgs } }
      return fd
    else return -3

def motionInit (color : Int) : Prog (Watched δ) Int := do
  note .device
  act <| modify fun c => { c with viddev := { c.viddev with
    v4lFmt := paletteYuv420p
    v4lBufsize := yuvBytes c.viddev.width c.viddev.height } }
  note .device
  act <| modify fun c => { c with tsk := { c.tsk with
    imgs := { c.tsk.imgs with width := c.viddev.width, height := c.viddev.height }
    conf := { c.tsk.conf with quality := 100 } } }
  let videoDev ← videoV4l2Start D
  act <| modify fun c => { c with tsk := { c.tsk with videoDev } }
  if videoDev < 0 then return -1
  else
    note .device
    act <| modify fun c => { c with tsk := allocateImages (colorMode color c.viddev c.tsk) }
    act <| modify fun c => { c with tsk := rotateInit { c.tsk with
      conf := { c.tsk.conf with rotateDeg := 90 } } }
    return 0

/-- False where the pointer is `NULL`: the process ends at the read of `s->fd`.
Of a structure that was freed the fields are read as they were left. -/
def videoV4l2Close : Prog (Watched δ) Bool := do
  note .device
  useSource
  if (← act get).v4l2Private then
    let _ ← act (xioctl D .streamoff)
    act <| modify fun c => { c with s := { c.s with fd := -1 } }
    return true
  else return false

/-- What both error branches do. -/
def discardDevice : Prog (Watched δ) PUnit := do
  if (← videoV4l2Close D) then
    note .free

/-- `pthread_create` succeeds or not. -/
def motionThreadStart (width height : Nat) (color : Int) (created : Bool) :
    Prog (Watched δ) PUnit := do
  act <| modify fun c => { c with tsk := { Context.zero with
    conf := { Context.zero.conf with v4l2Palette := 8 } } }
  note .device
  act <| modify fun c => { c with
    v4l2Private := false, viddev := { VideoDev.zero with width, height } }
  if (← motionInit D color) < 0 then discardDevice D
  else if !created then discardDevice D

/-! ## Without the notes -/

theorem watches_useSource {α : Type} {q : PUnit → Prog (Watched δ) α} {p : Prog (Cam δ) α}
    (h : Watches (q ⟨⟩) p) : Watches (useSource >>= q) p := fun l =>
  h { l with log := .source l.state.v4l2Private :: l.log }

theorem v4l2StartSteps_watches (width height : Nat) (input norm : Int) (freq : Nat) :
    Watches (v4l2StartSteps D width height input norm freq)
      (Common.Video.v4l2StartSteps D width height input norm freq) := by
  refine watches_useSource (watches_bind (watches_act _) fun _ => ?_)
  refine watches_ite (watches_pure _) ?_
  refine watches_useSource (watches_bind (watches_act _) fun _ => ?_)
  refine watches_ite (watches_pure _) ?_
  refine watches_useSource (watches_bind (watches_act _) fun ⟨ret, w, h⟩ => ?_)
  refine watches_ite (watches_pure _) ?_
  refine watches_useSource (watches_bind (watches_act _) fun _ => ?_)
  refine watches_ite (watches_pure _) ?_
  refine watches_useSource (watches_bind (watches_act _) fun _ => ?_)
  exact watches_ite (watches_pure _) (watches_pure _)

theorem v4l2Start_watches (width height : Nat) (input norm : Int) (freq : Nat) :
    Watches (v4l2Start D width height input norm freq)
      (Common.Video.v4l2Start D width height input norm freq) := by
  refine watches_note (watches_bind (watches_act _) fun _ => watches_useSource ?_)
  refine watches_bind (v4l2StartSteps_watches D width height input norm freq) fun _ => ?_
  refine watches_ite (watches_note (watches_pure _)) (watches_note ?_)
  exact watches_bind (watches_act _) fun _ => watches_pure _

theorem videoV4l2Start_watches : Watches (videoV4l2Start D) (Common.Video.videoV4l2Start D) := by
  refine watches_note (watches_bind (watches_act _) fun ans => ?_)
  cases ans with
  | error e => exact watches_note (watches_pure _)
  | ok fd =>
    refine watches_note (watches_bind (watches_act _) fun _ => ?_)
    refine watches_bind (watches_act _) fun c => ?_
    refine watches_bind (v4l2Start_watches D _ _ _ _ _) fun _ => ?_
    refine watches_ite (watches_note ?_) (watches_pure _)
    exact watches_bind (watches_act _) fun _ => watches_pure _

/-- **The notes apart, this is the start modelled before.** -/
theorem motionInit_watches (color : Int) :
    Watches (motionInit D color) (Motion.motionInit D color) := by
  refine watches_note (watches_bind (watches_act _) fun _ => ?_)
  refine watches_note (watches_bind (watches_act _) fun _ => ?_)
  refine watches_bind (videoV4l2Start_watches D) fun videoDev => ?_
  refine watches_bind (watches_act _) fun _ => ?_
  refine watches_ite (watches_pure _) (watches_note ?_)
  refine watches_bind (watches_act _) fun _ => ?_
  exact watches_bind (watches_act _) fun _ => watches_pure _

end SmartPrince.Eyes.MotionThread

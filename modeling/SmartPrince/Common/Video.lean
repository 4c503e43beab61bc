import SmartPrince.Lib.CInt
import SmartPrince.Common.Rotate
import SmartPrince.Common.V4l2

/-! # Video capture, `video.c`

Start-up, the capture of one frame and the switch of inputs, as programs over
the camera. Logging is left out, and allocations succeed. -/
namespace SmartPrince.Common.Video
open SmartPrince.Lib.Program SmartPrince.Lib.Loop SmartPrince.Lib.Memory SmartPrince.Lib.CInt
open SmartPrince.Common.CameraState SmartPrince.Common.V4l2
open SmartPrince.Common.VideoConv SmartPrince.Common.Rotate

variable {δ : Type} (D : Driver δ)

/-! ## Constants -/

def mmapBuffers : Nat := 4
def minMmapBuffers : Nat := 2
def v4lFatalError : Int := -1
def inDefault : Int := 8

def autobrightHysteresis : Int := 10
def autobrightDamper : Int := 5
def autobrightMax : Int := 255
def autobrightMin : Int := 0

/-- `V4L2_STD_PAL`, `V4L2_STD_NTSC`, `V4L2_STD_SECAM` -/
def stdPal : Nat := 0xFF
def stdNtsc : Nat := 0xB000
def stdSecam : Nat := 0xFF0000

def queriedCtrls : List Cid :=
  [.brightness, .contrast, .saturation, .hue, .redBalance, .blueBalance, .gamma, .exposure,
    .autogain, .gain, .dacMagn, .greenBalance]

/-- A higher index means better chance to be used. -/
def supportedFormats : List PixFmt :=
  [.sn9c10x, .sbggr8, .mjpeg, .jpeg, .rgb24, .uyvy, .yuyv, .yuv422p, .yuv420]

/-! ## Picture controls -/

/-- `for (i = 0; i < tsk->imgs.motionsize; i += 101) avg += image[i]`, where
`avg` is an `int`. -/
def sampleSum (motionsize : Nat) (mem : Mem Buf) : Int × Mem Buf :=
  loop ((motionsize + 100) / 101)
    (fun k (avg, mem) =>
      let (b, mem) := mem.load (imageVirgin + 101 * k)
      (int (avg + b.toNat), mem))
    (0, mem)

def vidDoAutobright : Prog (Cam δ) Bool := fun c =>
  let target := if c.tsk.conf.brightness ≠ 0 then c.tsk.conf.brightness else 128
  let windowHigh := min (target + autobrightHysteresis) 255
  let windowLow := max (target - autobrightHysteresis) 1
  let motionsize := c.tsk.imgs.motionsize.toNat
  let (sum, mem) := sampleSum motionsize c.mem
  let c := { c with mem }
  let avg := sum.tdiv ((motionsize + 100) / 101 : Nat)
  let brightness := c.viddev.brightness
  if avg > windowHigh then
    -- average is above window - turn down brightness - go for the target
    let step := min ((avg - target).tdiv autobrightDamper + 1) (brightness - autobrightMin)
    if brightness > step + 1 - autobrightMin then
      (true, { c with viddev := { c.viddev with brightness := brightness - step } })
    else (false, c)
  else if avg < windowLow then
    -- average is below window - turn up brightness - go for the target
    let step := min ((target - avg).tdiv autobrightDamper + 1) (autobrightMax - brightness)
    if brightness < autobrightMax - step then
      (true, { c with viddev := { c.viddev with brightness := brightness + step } })
    else (false, c)
  else (false, c)

/-- The entry of `s->controls` for `cid`: the number of controls found before
it; nothing where `cid` is not queried or was not found. -/
def findControl (flags : Nat) (cid : Cid) : List Cid → Nat → Nat → Option Nat
  | [], _, _ => none
  | q :: qs, i, count =>
    if flags.testBit i then
      if cid = q then some count else findControl flags cid qs (i + 1) (count + 1)
    else findControl flags cid qs (i + 1) count

def v4l2SetControl (cid : Cid) (value : Int) : Prog (Cam δ) Int := do
  let s := (← get).s
  match s.controls with
  | none => return -1
  | some controls =>
    match findControl s.ctrlFlags cid queriedCtrls 0 0 with
    | none => return -1
    | some count =>
      let ctrl := controls.getD count ⟨.other, 0, 0⟩
      match ctrl.type with
      | .integer =>
        let _ ← xioctl D (.sCtrl cid
          ((value * (ctrl.maximum - ctrl.minimum)).tdiv 256 + ctrl.minimum))
        return 0
      | .boolean =>
        let _ ← xioctl D (.sCtrl cid (if value ≠ 0 then 1 else 0))
        return 0
      | .other => return -1

/-- Brightness, and gain where the device has no brightness. -/
def setBrightness : Prog (Cam δ) Unit := do
  if (← v4l2SetControl D .brightness (← get).viddev.brightness) ≠ 0 then
    let _ ← v4l2SetControl D .gain (← get).viddev.brightness

/-- A control whose configured value is neither 0 nor the device's. -/
def pictureControl (cid : Cid) (configured : Config → Int) (device : VideoDev → Int)
    (store : Int → VideoDev → VideoDev) : Prog (Cam δ) Unit := do
  let c ← get
  let value := configured c.tsk.conf
  if value ≠ 0 ∧ value ≠ device c.viddev then
    modify fun c => { c with viddev := store value c.viddev }
    let _ ← v4l2SetControl D cid value

def v4l2PictureControls : Prog (Cam δ) Unit := do
  pictureControl D .contrast (·.contrast) (·.contrast) fun v d => { d with contrast := v }
  pictureControl D .saturation (·.saturation) (·.saturation) fun v d => { d with saturation := v }
  pictureControl D .hue (·.hue) (·.hue) fun v d => { d with hue := v }
  let c ← get
  if c.tsk.conf.autobright then
    if (← vidDoAutobright) then
      setBrightness D
  else if c.tsk.conf.brightness ≠ 0 ∧ c.tsk.conf.brightness ≠ c.viddev.brightness then
    modify fun c => { c with viddev := { c.viddev with brightness := c.tsk.conf.brightness } }
    setBrightness D

/-! ## Start-up -/

def v4l2GetCapability : Prog (Cam δ) Int := do
  match ← xioctl D .querycap with
  | .error _ => return -1
  | .ok (cap : Capability) =>
    modify fun c => { c with s := { c.s with cap } }
    return if cap.videoCapture then 0 else -1

/-- `while (xioctl(s->fd, VIDIOC_ENUMSTD, &standard) == 0) standard.index++` -/
def enumStandards : Nat → Nat → Prog (Cam δ) Unit
  | 0, _ => pure ()
  | fuel + 1, index => do
    match ← xioctl D (.enumstd index) with
    | .error _ => return
    | .ok _ => enumStandards fuel (index + 1)

/-- The standard, where the device has one. -/
def selectStandard (norm : Int) : Prog (Cam δ) Unit := do
  let stdId : Nat := match ← xioctl D .gStd with
    | .error _ => (0 : Nat)
    | .ok (id : Nat) => id
  if stdId ≠ 0 then
    enumStandards D (D.standards + 1) 0
    let _ ← xioctl D (.sStd (if norm = 1 then stdNtsc else if norm = 2 then stdSecam else stdPal))

/-- The frequency, where the input is attached to a tuner. -/
def selectFrequency (input : Input) (freq : Nat) : Prog (Cam δ) Unit := do
  if input.isTuner then
    match ← xioctl D (.gTuner input.tuner) with
    | .error _ => return
    | .ok _ =>
      let _ ← xioctl D (.sFrequency input.tuner (freq / 1000 * 16))

def v4l2SelectInput (input norm : Int) (freq : Nat) : Prog (Cam δ) Int := do
  let input := if input = 8 then 0 else input
  match ← xioctl D (.enuminput input) with
  | .error _ => return -1
  | .ok (inp : Input) =>
    match ← xioctl D (.sInput input) with
    | .error _ => return -1
    | .ok _ =>
      selectStandard D norm
      selectFrequency D inp freq
      return 0

/-- The result and the values left in `*width` and `*height`. -/
def v4l2DoSetPixFormat (pixformat : PixFmt) (width height : Nat) :
    Prog (Cam δ) (Int × Nat × Nat) := do
  let asked : PixFormat := ⟨width, height, pixformat⟩
  modify fun c => { c with s := { c.s with fmt := asked } }
  match ← xioctl D (.tryFmt asked) with
  | .error _ => return (-1, width, height)
  | .ok (fmt : PixFormat) =>
    modify fun c => { c with s := { c.s with fmt } }
    if fmt.pixelformat = pixformat then
      -- Adjusting resolution
      let (width, height) := (fmt.width, fmt.height)
      match ← xioctl D (.sFmt fmt) with
      | .error _ => return (-1, width, height)
      | .ok (fmt : PixFormat) =>
        modify fun c => { c with s := { c.s with fmt } }
        return (0, width, height)
    else return (-1, width, height)

/-- The last index from `i` on, not below `index + 1`, whose format is `fmt`. -/
def betterIndex (fmt : PixFmt) : List PixFmt → Int → Int → Int
  | [], _, index => index
  | f :: fs, i, index =>
    betterIndex fmt fs (i + 1) (if index + 1 ≤ i ∧ f = fmt then i else index)

/-- `fmt.index`: the 16-bit `v4l2_pal` after `k` increments, as a `__u32`. -/
def palIndex (k : Nat) : Nat :=
  if k % 2 ^ 16 < 2 ^ 15 then k % 2 ^ 16 else 2 ^ 32 - 2 ^ 16 + k % 2 ^ 16

/-- `while (xioctl(s->fd, VIDIOC_ENUM_FMT, &fmt) != -1)`; the result is `index_format`. -/
def enumFormats : Nat → Nat → Int → Prog (Cam δ) Int
  | 0, _, index => pure index
  | fuel + 1, k, index => do
    match ← xioctl D (.enumFmt (palIndex k)) with
    | .error _ => return index
    | .ok (fmt : PixFmt) => enumFormats fuel (k + 1) (betterIndex fmt supportedFormats 0 index)

def v4l2SetPixFormat (width height : Nat) : Prog (Cam δ) (Int × Nat × Nat) := do
  -- First we try a shortcut of just setting the config file value,
  -- which is unsigned: the source's test that it is not negative always holds
  let configured := supportedFormats.getD (← get).tsk.conf.v4l2Palette (.other 0)
  let (ret, width, height) ← v4l2DoSetPixFormat D configured width height
  if ret ≥ 0 then return (0, width, height)
  else
    -- Well, that didn't work, so we enumerate what the driver can offer
    let index ← enumFormats D (D.formats + 1) 0 (-1)
    if index ≥ 0 then
      let (ret, width, height) ←
        v4l2DoSetPixFormat D (supportedFormats.getD index.toNat (.other 0)) width height
      if ret ≥ 0 then return (0, width, height) else return (-1, width, height)
    else return (-1, width, height)

/-- The first loop of `v4l2_scan_controls`: the number of controls found. -/
def queryControls : List Cid → Nat → Nat → Prog (Cam δ) Nat
  | [], _, count => pure count
  | q :: qs, i, count => do
    match ← xioctl D (.queryctrl q) with
    | .error _ => queryControls qs (i + 1) count
    | .ok _ =>
      modify fun c => { c with s := { c.s with ctrlFlags := c.s.ctrlFlags ||| 1 <<< i } }
      queryControls qs (i + 1) (count + 1)

/-- The second loop: `*ctrl++` for each control that answers again. -/
def fillControls : List Cid → Nat → List QueryCtrl → Prog (Cam δ) (List QueryCtrl)
  | [], _, filled => pure filled
  | q :: qs, i, filled => do
    if (← get).s.ctrlFlags.testBit i then
      match ← xioctl D (.queryctrl q) with
      | .error _ => fillControls qs (i + 1) filled
      | .ok (ctrl : QueryCtrl) =>
        let _ ← xioctl D (.gCtrl q)
        fillControls qs (i + 1) (filled ++ [ctrl])
    else fillControls qs (i + 1) filled

def v4l2ScanControls : Prog (Cam δ) Int := do
  let count ← queryControls D queriedCtrls 0 0
  if count ≠ 0 then
    let filled ← fillControls D queriedCtrls 0 []
    -- calloc'ed for `count` controls
    let controls := filled ++ List.replicate (count - filled.length) ⟨.other, 0, 0⟩
    modify fun c => { c with s := { c.s with controls := some controls } }
  return 0

/-- `VIDIOC_QUERYBUF` and `mmap` of the buffers from `b` on. -/
def mapBuffers : Nat → Nat → Prog (Cam δ) Int
  | 0, _ => pure 0
  | n + 1, b => do
    match ← xioctl D (.querybuf b) with
    | .error _ => return -1
    | .ok (length : Nat) =>
      modify fun c => { c with s := { c.s with
        buffers := Function.update c.s.buffers b { c.s.buffers b with size := length } } }
      match ← xioctl D (.mmap length) with
      | .error _ => return -1
      | .ok _ => mapBuffers n (b + 1)

/-- `VIDIOC_QBUF` of the buffers from `b` on. -/
def queueBuffers : Nat → Nat → Prog (Cam δ) Int
  | 0, _ => pure 0
  | n + 1, b => do
    modify fun c => { c with s := { c.s with buf := { V4l2Buffer.zero with index := b } } }
    match ← xioctl D (.qbuf b) with
    | .error _ => return -1
    | .ok _ => queueBuffers n (b + 1)

def v4l2SetMmap : Prog (Cam δ) Int := do
  if !(← get).s.cap.streaming then return -1
  else
    modify fun c => { c with s := { c.s with reqCount := mmapBuffers } }
    match ← xioctl D (.reqbufs mmapBuffers) with
    | .error _ => return -1
    | .ok (count : Nat) =>
      modify fun c => { c with s := { c.s with reqCount := count } }
      if count < minMmapBuffers then return -1
      else
        modify fun c => { c with s := { c.s with buffers := fun _ => ⟨0, 0, 0⟩ } }
        if (← mapBuffers D count 0) ≠ 0 then return -1
        else if (← queueBuffers D count 0) ≠ 0 then return -1
        else
          match ← xioctl D .streamon with
          | .error _ => return -1
          | .ok _ => return 0

/-- The steps of `v4l2_start` after the state structure is there, up to the
first that fails; `width` and `height` are the function's own copies. -/
def v4l2StartSteps (width height : Nat) (input norm : Int) (freq : Nat) : Prog (Cam δ) Bool := do
  if (← v4l2GetCapability D) ≠ 0 then return false
  else if (← v4l2SelectInput D input norm freq) ≠ 0 then return false
  else
    let (ret, _, _) ← v4l2SetPixFormat D width height
    if ret ≠ 0 then return false
    else if (← v4l2ScanControls D) ≠ 0 then return false
    else if (← v4l2SetMmap D) ≠ 0 then return false
    else return true

def v4l2Start (width height : Nat) (input norm : Int) (freq : Nat) : Prog (Cam δ) Bool := do
  modify fun c => { c with
    v4l2Private := true
    s := { SrcV4l2.zero with fd := c.viddev.fd, fps := c.tsk.conf.frameLimit, pframe := -1 } }
  if (← v4l2StartSteps D width height input norm freq) then return true
  else
    modify fun c => { c with v4l2Private := false, viddev := { c.viddev with v4l2 := false } }
    return false

/-- `tsk->imgs.type` and `tsk->imgs.size` from the device. -/
def startImages (dev : VideoDev) (imgs : Images) : Images :=
  let imgs := { imgs with type := dev.v4lFmt }
  if imgs.type = paletteGrey then { imgs with size := int (dev.width * dev.height) }
  else if imgs.type = paletteYuyv ∨ imgs.type = paletteRgb24 ∨ imgs.type = paletteYuv422 then
    { imgs with type := paletteYuv420p, size := yuvBytes dev.width dev.height }
  else if imgs.type = paletteYuv420p then { imgs with size := yuvBytes dev.width dev.height }
  else imgs

/-- The device's fields before `v4l2_start`. -/
def startDevice (fd : Int) (dev : VideoDev) : VideoDev :=
  { dev with
    usageCount := 1, fd, input := inDefault, freq := 0, tunerNumber := 0
    brightness := 0, contrast := 0, saturation := 0, hue := 0
    owner := -1, fps := 0, v4l2 := true }

def videoV4l2Start : Prog (Cam δ) Int := do
  match ← xioctl D .openDevice with
  | .error _ => return -2
  | .ok (fd : Nat) =>
    modify fun c => { c with viddev := startDevice fd c.viddev }
    let dev := (← get).viddev
    if (← v4l2Start D dev.width dev.height inDefault 0 0) then
      modify fun c => { c with tsk := { c.tsk with imgs := startImages c.viddev c.tsk.imgs } }
      return fd
    else return -3

/-! ## Capture -/

/-- `SIG_BLOCK` of the signals kept away from the requests. -/
def blockSignals (mask : Signal → Bool) : Signal → Bool
  | .other n => mask (.other n)
  | _ => true

/-- `SIG_UNBLOCK` of a set. -/
def unblockSignals (set mask : Signal → Bool) (sig : Signal) : Bool := mask sig && !set sig

/-- Give the frame held back to the driver; false where it refuses. -/
def requeue : Prog (Cam δ) Bool := do
  let s := (← get).s
  if s.pframe ≥ 0 then
    match ← xioctl D (.qbuf s.buf.index) with
    | .error _ => return false
    | .ok _ => return true
  else return true

/-- `s->pframe++` around `s->req.count`, also stored as the buffer's index. -/
def nextPframe (s : SrcV4l2) : SrcV4l2 :=
  let pframe := s.pframe + 1
  let pframe := if pframe.toNat ≥ s.reqCount then 0 else pframe
  { s with pframe, buf := { s.buf with index := pframe.toNat } }

/-- Hold the buffer that was dequeued. -/
def holdFrame (b : Dequeued) (s : SrcV4l2) : SrcV4l2 :=
  { s with
    buf := ⟨b.index, b.bytesused, b.timestamp⟩
    pframe := b.index
    buffers := Function.update s.buffers b.index
      { s.buffers b.index with used := b.bytesused, contentLength := b.bytesused } }

/-- What the driver has written to the mapping of buffer `index`. -/
def deliver (index : Nat) (frame : Nat → UInt8) (mem : Mem Buf) : Mem Buf :=
  { mem with byte := fun p =>
      if p.base = .frame index ∧ 0 ≤ p.off then frame p.off.toNat else mem.byte p }

/-- Take a frame from the driver; the return value of the caller where there is none. -/
def dequeue : Prog (Cam δ) (Option Int) := do
  modify fun c => { c with s := { c.s with buf := .zero } }
  match ← xioctl D .dqbuf with
  | .error e =>
    if e = eio then
      modify fun c => { c with s := nextPframe c.s }
      return some 1
    else return some (-1)
  | .ok (b : Dequeued) =>
    modify fun c => { c with s := holdFrame b c.s, mem := deliver b.index b.frame c.mem }
    return none

/-- `tsk->imgs.common_buffer` -/
def commonBuffer : Ptr Buf := ⟨.commonBuffer, 0⟩

variable (decodeJpegRaw : DecodeJpegRaw)

/-- The `switch` over the pixel format of the frame at `src`. -/
def convert (fmt : PixFmt) (map src : Ptr Buf) (width height bufsize contentLength : Nat)
    (mem : Mem Buf) : Int × Mem Buf :=
  match fmt with
  | .rgb24 => (0, convRgb24toyuv420p map src width height mem)
  | .uyvy => (0, convUyvyto420p map src width height mem)
  | .yuyv | .yuv422p => (0, convYuv422to420p map src width height mem)
  | .yuv420 => (0, mem.memcpy map src bufsize)
  | .jpeg | .mjpeg =>
    mjpegtoyuv420p decodeJpegRaw (fun k => ⟨.yuv k, 0⟩) map src width height contentLength mem
  | .sbggr8 =>
    let mem := bayer2rgb24 commonBuffer src width height mem
    (0, convRgb24toyuv420p map commonBuffer width height mem)
  | .sn9c10x =>
    let mem := sonixDecompress map src width height mem
    let mem := bayer2rgb24 commonBuffer map width height mem
    (0, convRgb24toyuv420p map commonBuffer width height mem)
  | .other _ => (1, mem)

/-- Convert the frame held into `map`. -/
def convertFrame (map : Ptr Buf) (width height : Nat) : Prog (Cam δ) Int := fun c =>
  let index := c.s.buf.index
  let (ret, mem) := convert decodeJpegRaw c.s.fmt.pixelformat map ⟨.frame index, 0⟩ width height
    c.viddev.v4lBufsize.toNat (c.s.buffers index).contentLength c.mem
  (ret, { c with mem })

def v4l2Next (map : Ptr Buf) (width height : Nat) : Prog (Cam δ) Int := do
  if (← get).viddev.v4lFmt ≠ paletteYuv420p then return v4lFatalError
  else
    let old := (← get).sigmask
    modify fun c => { c with sigmask := blockSignals c.sigmask }
    if (← requeue D) then
      match ← dequeue D with
      | some ret => return ret
      | none =>
        modify fun c => { c with sigmask := unblockSignals old c.sigmask }
        convertFrame decodeJpegRaw map width height
    else return -1

def Time.after (t u : Time) : Bool := t.sec > u.sec || (t.sec == u.sec && t.usec > u.usec)

/-- Skip all frames captured before `switchTime`, capture 1 after. -/
def skipFrames (map : Ptr Buf) (width height : Nat) (switchTime : Time) : Nat → Prog (Cam δ) Unit
  | 0 => pure ()
  | n + 1 => do
    if (← v4l2Next D decodeJpegRaw map width height) ≠ 0 then return
    else if Time.after (← get).s.buf.timestamp switchTime then return
    else skipFrames map width height switchTime n

/-- `for (i = 1; i < skip; i++) v4l2_next(…)` -/
def skipMore (map : Ptr Buf) (width height : Nat) : Nat → Prog (Cam δ) Unit
  | 0 => pure ()
  | n + 1 => do
    let _ ← v4l2Next D decodeJpegRaw map width height
    skipMore map width height n

def v4l2SetInput (map : Ptr Buf) (width height : Nat) : Prog (Cam δ) Unit := do
  let conf := (← get).tsk.conf
  let dev := (← get).viddev
  if conf.input ≠ dev.input ∨ width ≠ dev.width ∨ height ≠ dev.height ∨ conf.frequency ≠ dev.freq ∨
      conf.tunerNumber ≠ dev.tunerNumber then
    let _ ← v4l2SelectInput D conf.input conf.norm conf.frequency
    let switchTime ← gettimeofday D
    v4l2PictureControls D
    modify fun c => { c with viddev := { c.viddev with
      input := conf.input, width, height, freq := conf.frequency, tunerNumber := conf.tunerNumber } }
    skipFrames D decodeJpegRaw map width height switchTime (← get).s.reqCount
    skipMore D decodeJpegRaw map width height (conf.roundrobinSkip - 1).toNat
  else v4l2PictureControls D

/-- rotate the image as specified -/
def rotateCaptured (map : Ptr Buf) : Prog (Cam δ) Unit := do
  if (← get).tsk.rotateData.degrees > 0 then
    modify fun c => { c with mem := (rotateMap c.tsk map c.mem).2 }

def videoV4l2Next (map : Ptr Buf) : Prog (Cam δ) Int := do
  let imgs := (← get).tsk.imgs
  v4l2SetInput D decodeJpegRaw map imgs.width imgs.height
  let ret ← v4l2Next D decodeJpegRaw map imgs.width imgs.height
  rotateCaptured map
  return ret

end SmartPrince.Common.Video

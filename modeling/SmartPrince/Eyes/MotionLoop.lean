import SmartPrince.Common.JpegEncode
import SmartPrince.Common.PpmFile
import SmartPrince.Eyes.MotionCapture

/-! # The watching thread, `motion_thread_loop`

The loop has no end. A turn of it captures, and then saves the frame to a file
or looks for a face in the picture made of it; where a face found before is
still processed, it does neither. What is looked for in a picture is not part
of this repository: here the pictures handed on are listed. -/
namespace SmartPrince.Eyes.MotionLoop
open SmartPrince.Lib.CString SmartPrince.Lib.Memory
open SmartPrince.Common.CameraState SmartPrince.Common.V4l2 SmartPrince.Common.VideoConv
open SmartPrince.Common.JpegEncode SmartPrince.Common.PpmFile
open SmartPrince.Common.File (decimal)
open SmartPrince.Eyes.MotionCapture

/-! ## `put_picture` -/

/-- What is written to an open file; a JPEG as libjpeg is given it. -/
inductive Content where
  | ppm (bytes : List UInt8)
  | jpeg (raw : Raw) (quality : Int) (image : Nat → UInt8)
  | greyJpeg (quality : Int) (rows : List (List UInt8))
  | empty

/-- The bytes at `n` places from `p` on. -/
def bytesAt (mem : Mem Buf) (p : Ptr Buf) (n : Nat) : List UInt8 :=
  (List.range n).map fun i => mem.byte (p + i)

/-- `put_jpeg_grey_file` -/
def putJpegGreyFile (mem : Mem Buf) (image : Ptr Buf) (width height : Nat) (quality : Int) : Content :=
  .greyJpeg quality ((List.range height).map fun y => bytesAt mem (image + y * width) width)

def putPictureFd (tsk : Context) (mem : Mem Buf) (image : Ptr Buf) (quality : Int) : Content :=
  if tsk.conf.ppm = paletteGrey then .ppm (putPpmGrayFile mem.byte image tsk.imgs.width tsk.imgs.height)
  else if tsk.conf.ppm = paletteRgb24 then
    .ppm (putPpmBgr24File mem.byte image tsk.imgs.width tsk.imgs.height)
  else if tsk.imgs.type = paletteYuv420p then
    .jpeg (putJpegYuv420p tsk.imgs.width tsk.imgs.height) quality fun i => mem.byte (image + i)
  else if tsk.imgs.type = paletteGrey then
    putJpegGreyFile mem image tsk.imgs.width tsk.imgs.height quality
  else .empty

/-- What `myfopen` with mode `"w"` comes to. -/
inductive Opening where
  | opened
  | eacces
  | failed
  deriving DecidableEq, Repr

/-- `cnt->finish` and `cnt->restart` are set where the file may not be written. -/
structure World (δ : Type) where
  eye : Eye δ
  cnt : BitVec 64
  files : List UInt8 → Option Content
  cntFinish : Bool
  cntRestart : Bool
  handed : List (List UInt8)  -- to `img_to_pgm`, the latest first

variable {δ : Type}

def putPicture (opening : Opening) (file : List UInt8) (image : Ptr Buf) (s : World δ) : World δ :=
  let tsk := s.eye.cam.tsk
  match opening with
  | .opened =>
    let content := putPictureFd tsk s.eye.cam.mem image tsk.conf.quality
    { s with files := Function.update s.files file (some content) }
  | .eacces => { s with cntFinish := true, cntRestart := false }
  | .failed => s

/-! ## The loop -/

/-- `PATH_DATA_ML_BAK1` -/
def pathDataMlBak1 : List UInt8 := ofText "/home/pi/nfs/ml/bak1"

/-- `CONFIG_MODE_CAP` -/
def configModeCap : BitVec 32 := 0x20

def imageext (tsk : Context) : List UInt8 :=
  if tsk.conf.ppm = paletteGrey ∨ tsk.conf.ppm = paletteRgb24 then ofText "ppm" else ofText "jpg"

/-- `%08d` -/
def padded (n : Int) : List UInt8 :=
  let sign := if n < 0 then ['-'.toUInt8] else []
  let digits := decimal n.natAbs
  sign ++ List.replicate (8 - (sign ++ digits).length) '0'.toUInt8 ++ digits

/-- `fname`, an array of 80 bytes. -/
def fname (count : BitVec 32) (tsk : Context) : List UInt8 :=
  pathDataMlBak1 ++ ofText "/img_" ++ padded count.toInt ++ ofText "." ++ imageext tsk

def motionWritePicture (count : BitVec 32) (opening : Opening) (s : World δ) : World δ :=
  putPicture opening (fname count s.eye.cam.tsk) imageVirgin s

def motionFaceDetection (s : World δ) : World δ :=
  let cam := s.eye.cam
  let picture := bytesAt cam.mem s.eye.convImg (cam.viddev.width * cam.viddev.height)
  { s with handed := picture :: s.handed }

/-- What a turn meets: whether a face is still processed, and the file system. -/
structure Turn where
  faceProcessing : Bool
  opening : Opening

section Loop
variable (D : Driver δ) (decodeJpegRaw : DecodeJpegRaw) (runMode : BitVec 32)

def capture (ppm : Int) (s : World δ) : World δ :=
  { s with eye := (motionCapture D decodeJpegRaw ppm s.eye).2 }

/-- A turn of the loop. -/
def loopTurn (s : World δ) (t : Turn) : World δ :=
  let s := { s with cnt := s.cnt + 1 }
  if t.faceProcessing then s
  else if runMode &&& configModeCap ≠ 0 then
    motionWritePicture (s.cnt.setWidth 32) t.opening (capture D decodeJpegRaw paletteYuv420p s)
  else motionFaceDetection (capture D decodeJpegRaw paletteGrey s)

end Loop

end SmartPrince.Eyes.MotionLoop

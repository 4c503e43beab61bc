import SmartPrince.Lib.Program
import SmartPrince.Common.CameraState
import SmartPrince.Common.VideoConv

/-! # Video4Linux: what is asked of the driver, and the state of a camera

The driver is a parameter: it answers each request from a state of its own.
Every answer is recorded with the request and the driver's state before it, so
that a property of what was asked is a property of the record. -/
namespace SmartPrince.Common.V4l2
open SmartPrince.Lib.Program SmartPrince.Lib.Memory
open SmartPrince.Common.CameraState

/-! ## Requests -/

abbrev Errno := Nat

/-- `EIO` -/
def eio : Errno := 5

/-- `V4L2_PIX_FMT_*` -/
inductive PixFmt where
  | sn9c10x
  | sbggr8
  | mjpeg
  | jpeg
  | rgb24
  | uyvy
  | yuyv
  | yuv422p
  | yuv420
  | other (code : Nat)
  deriving DecidableEq, Repr

/-- `V4L2_CID_*`: the ids of `queried_ctrls`, and any other. -/
inductive Cid where
  | brightness
  | contrast
  | saturation
  | hue
  | redBalance
  | blueBalance
  | gamma
  | exposure
  | autogain
  | gain
  | dacMagn
  | greenBalance
  | other (code : Nat)
  deriving DecidableEq, Repr

/-- The fields of `struct v4l2_pix_format` that the program reads or sets. -/
structure PixFormat where
  width : Nat
  height : Nat
  pixelformat : PixFmt
  deriving DecidableEq, Repr

structure Capability where
  videoCapture : Bool
  streaming : Bool
  deriving Repr

/-- `struct v4l2_input`: whether its type has the tuner flag, and the tuner. -/
structure Input where
  isTuner : Bool
  tuner : Nat
  deriving Repr

/-- `V4L2_CTRL_TYPE_*` -/
inductive CtrlType where
  | integer
  | boolean
  | other
  deriving DecidableEq, Repr

structure QueryCtrl where
  type : CtrlType
  minimum : Int
  maximum : Int
  deriving Repr

structure Time where
  sec : Int
  usec : Int
  deriving Repr

/-- What a successful `VIDIOC_DQBUF` fills in, and the bytes in the buffer's mapping. -/
structure Dequeued where
  index : Nat
  bytesused : Nat
  timestamp : Time
  frame : Nat → UInt8

inductive Request where
  | openDevice
  | querycap
  | enuminput (index : Int)
  | sInput (index : Int)
  | gStd
  | enumstd (index : Nat)
  | sStd (id : Nat)
  | gTuner (index : Nat)
  | sFrequency (tuner frequency : Nat)
  | tryFmt (fmt : PixFormat)
  | sFmt (fmt : PixFormat)
  | enumFmt (index : Nat)
  | queryctrl (id : Cid)
  | gCtrl (id : Cid)
  | sCtrl (id : Cid) (value : Int)
  | reqbufs (count : Nat)
  | querybuf (index : Nat)
  | mmap (length : Nat)
  | qbuf (index : Nat)
  | dqbuf
  | streamon
  | streamoff

/-- What the driver hands back when it does as asked. -/
def Request.Reply : Request → Type
  | .openDevice => Nat
  | .querycap => Capability
  | .enuminput _ => Input
  | .gStd => Nat
  | .tryFmt _ => PixFormat
  | .sFmt _ => PixFormat
  | .enumFmt _ => PixFmt
  | .queryctrl _ => QueryCtrl
  | .gCtrl _ => Int
  | .reqbufs _ => Nat
  | .querybuf _ => Nat
  | .dqbuf => Dequeued
  | _ => Unit

/-- The one request that changes the format of the frames. -/
def Request.setsFormat : Request → Bool
  | .sFmt _ => true
  | _ => false

/-- The one request that starts the stream. -/
def Request.startsStream : Request → Bool
  | .streamon => true
  | _ => false

/-- A driver: its answer to `xioctl`, which has repeated the request while it
was interrupted, the clock, and how many standards and formats it enumerates. -/
structure Driver (δ : Type) where
  ioctl : (r : Request) → δ → Except Errno r.Reply × δ
  gettimeofday : δ → Time × δ
  standards : Nat
  formats : Nat
  standards_end : ∀ i d, standards ≤ i → ∃ e, (ioctl (.enumstd i) d).1 = .error e
  formats_end : ∀ i d, formats ≤ i → ∃ e, (ioctl (.enumFmt i) d).1 = .error e

structure Exchange (δ : Type) where
  request : Request
  before : δ
  answer : Except Errno request.Reply

/-! ## The camera -/

/-- The part of `struct v4l2_buffer` the program reads back. -/
structure V4l2Buffer where
  index : Nat
  bytesused : Nat
  timestamp : Time
  deriving Repr

/-- `netcam_buff` -/
structure NetcamBuff where
  size : Nat
  used : Nat
  contentLength : Nat
  deriving Repr

/-- `src_v4l2_t`; `controls` is `NULL` until controls were found. -/
structure SrcV4l2 where
  fd : Int
  fps : Int
  cap : Capability
  fmt : PixFormat
  reqCount : Nat
  buf : V4l2Buffer
  buffers : Nat → NetcamBuff
  pframe : Int
  ctrlFlags : Nat
  controls : Option (List QueryCtrl)

inductive Signal where
  | sigchld
  | sigalrm
  | sigusr1
  | sigterm
  | sighup
  | other (signo : Nat)
  deriving DecidableEq, Repr

/-- All that the capture path works on: the task's context, the device, the
device's private state and whether it is there, the bytes, the signals the
thread blocks, the driver and what was asked of it, newest first. -/
structure Cam (δ : Type) where
  tsk : Context
  viddev : VideoDev
  s : SrcV4l2
  v4l2Private : Bool
  mem : Mem Buf
  sigmask : Signal → Bool
  drv : δ
  trace : List (Exchange δ)

variable {δ : Type}

def xioctl (D : Driver δ) (r : Request) : Prog (Cam δ) (Except Errno r.Reply) := fun c =>
  let (a, d) := D.ioctl r c.drv
  (a, { c with drv := d, trace := ⟨r, c.drv, a⟩ :: c.trace })

def gettimeofday (D : Driver δ) : Prog (Cam δ) Time := fun c =>
  let (t, d) := D.gettimeofday c.drv
  (t, { c with drv := d })

/-- `memset(&s->buf, 0, sizeof(struct v4l2_buffer))` -/
def V4l2Buffer.zero : V4l2Buffer := ⟨0, 0, ⟨0, 0⟩⟩

/-- `calloc(sizeof(src_v4l2_t), 1)` -/
def SrcV4l2.zero : SrcV4l2 where
  fd := 0
  fps := 0
  cap := ⟨false, false⟩
  fmt := ⟨0, 0, .other 0⟩
  reqCount := 0
  buf := .zero
  buffers _ := ⟨0, 0, 0⟩
  pframe := 0
  ctrlFlags := 0
  controls := none

/-- Nothing set up, and nothing asked of the driver yet. -/
def Cam.zero (drv : δ) : Cam δ where
  tsk := .zero
  viddev := .zero
  s := .zero
  v4l2Private := false
  mem := ⟨fun _ => 0, []⟩
  sigmask _ := false
  drv
  trace := []

end SmartPrince.Common.V4l2

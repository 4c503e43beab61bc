import SmartPrince.Lib.Fill
import SmartPrince.Common.VideoConv

/-! # Motion JPEG frames, `jpegutils.c`

`decode_jpeg_raw` as `mjpegtoyuv420p` calls it: not interlaced, and with a
chroma format that is not 4:2:2, which stands for 4:2:0. What libjpeg makes of
the compressed frame is a parameter. The `unsigned int` index `xd` is a number
here, like the dimensions it is computed from. -/
namespace SmartPrince.Common.JpegUtils
open SmartPrince.Lib.Fill SmartPrince.Lib.Loop SmartPrince.Lib.Memory

/-! ## libjpeg -/

/-- Samples by row and column. -/
abbrev Rows := Nat → Nat → UInt8

/-- The components of a picture are numbered 0, 1 and 2. -/
instance neZero_components : NeZero 3 := ⟨by decide⟩

/-- What `jpeg_start_decompress` leaves in `dinfo`. -/
structure Header where
  outputComponents : Nat
  hSampFactor : Fin 3 → Nat
  vSampFactor : Fin 3 → Nat
  outputWidth : Nat
  outputHeight : Nat

/-- The samples of component `k` in a row: whole blocks of 8. -/
def Header.columns (hd : Header) (k : Fin 3) : Nat :=
  8 * ((hd.outputWidth * hd.hSampFactor k + 8 * hd.hSampFactor 0 - 1) / (8 * hd.hSampFactor 0))

/-- A decompression; `none` and `false` stand for `error_exit`. -/
structure Jpeg where
  start : Option Header
  /-- what the rows of `scanarray` hold after call `k` of `jpeg_read_raw_data` -/
  rawData : Nat → Option (Fin 3 → Rows)
  finish : Bool
  warningSeen : Bool

/-! ## The checks -/

/-- `MAX_LUMA_WIDTH` -/
def maxLumaWidth : Nat := 4096

/-- The sampling factors that are supported. -/
def Header.Supported (hd : Header) : Prop :=
  (hd.hSampFactor 0 = 2 ∨ hd.hSampFactor 0 = 1) ∧ hd.hSampFactor 1 = 1 ∧ hd.hSampFactor 2 = 1 ∧
    (hd.vSampFactor 0 = 1 ∨ hd.vSampFactor 0 = 2) ∧ hd.vSampFactor 1 = 1 ∧ hd.vSampFactor 2 = 1

instance (hd : Header) : Decidable hd.Supported := inferInstanceAs (Decidable (_ ∧ _))

/-- A picture that passed the checks: the dimensions requested, and the image's. -/
structure Picture where
  width : Nat
  height : Nat
  outputWidth : Nat
  outputHeight : Nat
  hsf : Nat  -- `hsf[0]`
  vsf : Nat  -- `vsf[0]`
  vsf_cases : vsf = 1 ∨ vsf = 2
  same_height : outputHeight = height

/-- The checks before the first row is read. Twice the image's height is that
of an interlaced frame, and no interlacing is set. -/
def accept (hd : Header) (width height : Nat) : Option Picture :=
  if hd.outputComponents ≠ 3 then none
  else if hs : hd.Supported then
    if hd.hSampFactor 0 = 1 ∧ height % 8 ≠ 0 then none
    else if hh : hd.outputHeight = height then
      if hd.outputWidth > maxLumaWidth then none
      else some {
        width, height
        outputWidth := hd.outputWidth
        outputHeight := hd.outputHeight
        hsf := hd.hSampFactor 0
        vsf := hd.vSampFactor 0
        vsf_cases := hs.2.2.2.1
        same_height := hh }
    else none
  else none

namespace Picture
variable (p : Picture)

/-- 1: downsample 2:1, 2: the special case of 3:2 downsampling, 0: none. -/
def hdown : Nat :=
  if p.width < 2 * p.outputWidth / 3 then 1 else if p.width = 2 * p.outputWidth / 3 then 2 else 0

/-- The first column taken, made even. -/
def xsl : Nat :=
  let xsl :=
    if p.hdown = 1 then
      if 2 * p.width < p.outputWidth then (p.outputWidth - 2 * p.width) / 2 else 0
    else if p.hdown = 2 then 0
    else if p.width < p.outputWidth then (p.outputWidth - p.width) / 2 else 0
  xsl - xsl % 2

def xsc : Nat := p.xsl / 2

end Picture

/-! ## One block of rows -/

def half (a b : UInt8) : UInt8 := UInt8.ofNat ((a.toNat + b.toNat) >>> 1)

/-- `(2 * a + b) / 3` -/
def third (a b : UInt8) : UInt8 := UInt8.ofNat ((2 * a.toNat + b.toNat) / 3)

/-- `raw0`, `raw1` and `raw2`, which start out unknown, the counters of their
rows, and the rows of chroma that outlive a call. -/
structure Decoding where
  raw0 : Nat → Option UInt8
  raw1 : Nat → Option UInt8
  raw2 : Nat → Option UInt8
  yl : Nat
  yc : Nat
  buf1 : Rows
  buf2 : Rows

def Decoding.raw (d : Decoding) : Fin 3 → Nat → Option UInt8
  | 0 => d.raw0
  | 1 => d.raw1
  | 2 => d.raw2

variable (p : Picture)

/-- A row of luma, stored from `xd` on. -/
def lumaRow (row : Nat → UInt8) (xd : Nat) (raw0 : Nat → Option UInt8) : Nat → Option UInt8 :=
  if p.hdown = 0 then
    loop p.width (fun x raw0 => put raw0 (xd + x) (row (p.xsl + x))) raw0
  else if p.hdown = 1 then
    loop p.width (fun x raw0 =>
      put raw0 (xd + x) (half (row (p.xsl + 2 * x)) (row (p.xsl + 2 * x + 1)))) raw0
  else
    loop (p.width / 2) (fun x raw0 =>
      let xs := p.xsl + 3 * x
      let raw0 := put raw0 (xd + 2 * x) (third (row xs) (row (xs + 1)))
      put raw0 (xd + 2 * x + 1) (third (row (xs + 2)) (row (xs + 1)))) raw0

def luma (row0 : Rows) (d : Decoding) : Decoding :=
  { d with
    raw0 := loop (8 * p.vsf) (fun y => lumaRow p (row0 y) ((d.yl + y) * p.width)) d.raw0
    yl := d.yl + 8 * p.vsf }

/-- 4:4:4 sampling: pairs of samples are averaged into the rows kept. -/
def halved (wide buf : Rows) : Rows := fun y xs =>
  if p.xsc ≤ xs ∧ xs < p.xsc + p.width / 2 then
    half (wide y (2 * (xs - p.xsc))) (wide y (2 * (xs - p.xsc) + 1))
  else buf y xs

/-- `chr1` and `chr2`, as far as they are read. -/
def chr (row : Rows) : Rows := fun y x =>
  if p.hdown = 0 then row y (p.xsc + x)
  else if p.hdown = 1 then half (row y (p.xsc + 2 * x)) (row y (p.xsc + 2 * x + 1))
  else
    let xs := p.xsc + 3 * (x / 2)
    if x % 2 = 0 then third (row y xs) (row y (xs + 1)) else third (row y (xs + 2)) (row y (xs + 1))

/-- The chroma planes, and whether the assertion failed. -/
structure Chroma where
  raw1 : Nat → Option UInt8
  raw2 : Nat → Option UInt8
  aborted : Bool

/-- Where `asserted`, `assert(xd < (width * height / 4))` comes first. -/
def chromaSample (asserted : Bool) (xd : Nat) (u v : UInt8) (s : Chroma) : Chroma :=
  if s.aborted then s
  else if asserted ∧ ¬ xd < p.width * p.height / 4 then { s with aborted := true }
  else { s with raw1 := put s.raw1 xd u, raw2 := put s.raw2 xd v }

def chromaRow (asserted : Bool) (yc : Nat) (u v : Nat → UInt8) (s : Chroma) : Chroma :=
  loop (p.width / 2) (fun x => chromaSample p asserted (yc * p.width / 2 + x) (u x) (v x)) s

def chroma (chr1 chr2 : Rows) (yc : Nat) (s : Chroma) : Chroma :=
  if p.vsf = 1 then
    -- Really downsample
    loop 4 (fun j => chromaRow p true (yc + j)
      (fun x => half (chr1 (2 * j) x) (chr1 (2 * j + 1) x))
      (fun x => half (chr2 (2 * j) x) (chr2 (2 * j + 1) x))) s
  else
    -- Just copy
    loop 8 (fun j => chromaRow p false (yc + j) (chr1 j) (chr2 j)) s

/-- What follows a call of `jpeg_read_raw_data`, and whether the process was aborted. -/
def block (rows : Fin 3 → Rows) (d : Decoding) : Decoding × Bool :=
  let d := luma p (rows 0) d
  let row1 := if p.hsf = 1 then halved p (rows 1) d.buf1 else rows 1
  let row2 := if p.hsf = 1 then halved p (rows 2) d.buf2 else rows 2
  let s := chroma p (chr p row1) (chr p row2) d.yc ⟨d.raw1, d.raw2, false⟩
  ({ d with
      raw1 := s.raw1, raw2 := s.raw2
      yc := d.yc + if p.vsf = 1 then 4 else 8
      buf1 := row1, buf2 := row2 }, s.aborted)

/-! ## The frame -/

inductive Stop where
  | error    -- libjpeg signalled an error
  | aborted  -- the assertion failed
  | done
  deriving DecidableEq

variable (jpeg : Jpeg)

/-- The loop over `dinfo.output_scanline`; `k` calls of `jpeg_read_raw_data` were made. -/
def scan (k scanline : Nat) (d : Decoding) : Decoding × Stop :=
  if scanline < p.outputHeight then
    match jpeg.rawData k with
    | none => (d, .error)
    | some rows =>
      if (block p rows d).2 then ((block p rows d).1, .aborted)
      else scan (k + 1) (scanline + 8 * p.vsf) (block p rows d).1
  else (d, .done)
termination_by p.outputHeight - scanline
decreasing_by
  have := p.vsf_cases
  omega

/-- The value returned, none where the process was aborted. -/
def returned : Stop → Option Int
  | .error => some (-1)
  | .aborted => none
  | .done => if jpeg.finish then some (if jpeg.warningSeen then 1 else 0) else some (-1)

/-- The planes and the value returned. -/
structure Decoded where
  raw : Fin 3 → Nat → Option UInt8
  ret : Option Int

/-- `buf1` and `buf2` are the static rows as an earlier call left them. -/
def decodeJpegRaw (buf1 buf2 : Rows) (width height : Nat) : Decoded :=
  let refused : Decoded := ⟨fun _ _ => none, some (-1)⟩
  match jpeg.start with
  | none => refused
  | some hd =>
    match accept hd width height with
    | none => refused
    | some p =>
      let (d, stop) := scan p jpeg 0 0 ⟨fun _ => none, fun _ => none, fun _ => none, 0, 0, buf1, buf2⟩
      ⟨d.raw, returned jpeg stop⟩

variable {ι : Type} [DecidableEq ι]

/-- `mjpegtoyuv420p` with this decoder; none where the process was aborted. -/
def mjpegtoyuv420p (buf1 buf2 : Rows) (yuv : Fin 3 → Ptr ι) (map capMap : Ptr ι)
    (width height size : Nat) (mem : Mem ι) : Option (Int × Mem ι) :=
  let dec := decodeJpegRaw jpeg buf1 buf2 width height
  dec.ret.map fun ret =>
    VideoConv.mjpegtoyuv420p (fun _ _ _ _ => ⟨ret, dec.raw⟩) yuv map capMap width height size mem

end SmartPrince.Common.JpegUtils

import SmartPrince.Common.JpegUtils

/-! # Frames are compressed, `jpegutils.c` and `picture.c`

`encode_jpeg_raw` and the functions `put_jpeg_yuv420p_…` give libjpeg pointers
to the rows of the planes, a block of rows at a call. What libjpeg makes of the
samples is not described, and the room for the compressed frame is not either. -/
namespace SmartPrince.Common.JpegEncode
open SmartPrince.Common.JpegUtils

/-- A call of `jpeg_write_raw_data`: where each row of a component starts in its plane. -/
abbrev RowPointers := Fin 3 → Nat → Nat

/-- A picture as libjpeg is given it. -/
structure Raw where
  header : Header
  calls : List RowPointers

/-! ## `encode_jpeg_raw` -/

/-- `Y4M_ILACE_TOP_FIRST` -/
def y4mIlaceTopFirst : Int := 1

/-- `Y4M_ILACE_BOTTOM_FIRST` -/
def y4mIlaceBottomFirst : Int := 2

/-- `Y4M_CHROMA_422` -/
def y4mChroma422 : Int := 4

def numfields (itype : Int) : Nat :=
  if itype = y4mIlaceTopFirst ∨ itype = y4mIlaceBottomFirst then 2 else 1

/-- The row a field starts with. -/
def firstRow (itype : Int) (field : Nat) : Nat :=
  if itype = y4mIlaceTopFirst then field
  else if itype = y4mIlaceBottomFirst then 1 - field
  else 0

/-- `yc` before row `y` of a block is taken. -/
def chromaRowAt (ctype : Int) (n yc : Nat) : Nat → Nat
  | 0 => yc
  | y + 1 => chromaRowAt ctype n yc y + if ctype = y4mChroma422 ∨ y % 2 = 1 then n else 0

def rowPointers (ctype : Int) (n width yl yc : Nat) : RowPointers
  | 0, y => (yl + y * n) * width
  | _, y => chromaRowAt ctype n yc y * width / 2

/-- The loop over `next_scanline`. -/
def fieldCalls (ctype : Int) (n width imageHeight scanline yl yc : Nat) : List RowPointers :=
  if scanline < imageHeight then
    rowPointers ctype n width yl yc ::
      fieldCalls ctype n width imageHeight (scanline + 8) (yl + 8 * n) (chromaRowAt ctype n yc 8)
  else []
termination_by imageHeight - scanline

/-- The header of the fields, which take every row of chroma that is there for one of luma. -/
def fieldHeader (width imageHeight : Nat) : Header where
  outputComponents := 3
  hSampFactor k := if k = 0 then 2 else 1
  vSampFactor _ := 1
  outputWidth := width
  outputHeight := imageHeight

/-- The fields, none where -1 is returned; libjpeg signals an error for an empty image. -/
def encodeJpegRaw (itype ctype : Int) (width height : Nat) : Option (List Raw) :=
  let n := numfields itype
  if width > 4096 ∨ height > 4096 then none
  else if width % 16 ≠ 0 ∨ height % 16 ≠ 0 then none
  else if n = 1 ∧ height > 2048 then none
  else if width = 0 ∨ height = 0 then none
  else some ((List.range n).map fun field =>
    ⟨fieldHeader width (height / n),
      fieldCalls ctype n width (height / n) 0 (firstRow itype field) (firstRow itype field)⟩)

/-! ## `put_jpeg_yuv420p_memory` and `put_jpeg_yuv420p_file` -/

/-- The planes are parts of one image. -/
def imagePointers (width height j : Nat) : RowPointers
  | 0, i => width * (i + j)
  | 1, i => width * height + width / 2 * ((2 * i + j) / 2)
  | 2, i => width * height + width * height / 4 + width / 2 * ((2 * i + j) / 2)

/-- The loop over `j`. -/
def imageCalls (width height j : Nat) : List RowPointers :=
  if j < height then imagePointers width height j :: imageCalls width height (j + 16) else []
termination_by height - j

def putJpegYuv420p (width height : Nat) : Raw where
  header := {
    outputComponents := 3
    hSampFactor k := if k = 0 then 2 else 1
    vSampFactor k := if k = 0 then 2 else 1
    outputWidth := width
    outputHeight := height }
  calls := imageCalls width height 0

/-! ## What libjpeg takes, and gives back -/

/-- The rows of component `k` that a call hands over. -/
def Header.rows (hd : Header) (k : Fin 3) : Nat := 8 * hd.vSampFactor k

/-- Every sample taken, `Header.columns` of each row, lies within its plane. -/
def Raw.Inside (raw : Raw) (size : Fin 3 → Nat) : Prop :=
  ∀ rows ∈ raw.calls, ∀ k y x, y < Header.rows raw.header k → x < Header.columns raw.header k →
    rows k y + x < size k

/-- The picture once more, from a compression without loss. -/
def Raw.lossless (raw : Raw) (plane : Fin 3 → Nat → UInt8) : Jpeg where
  start := some raw.header
  rawData call := raw.calls[call]?.map fun rows k y x => plane k (rows k y + x)
  finish := true
  warningSeen := false

/-- The pictures in a buffer; libjpeg signals an error behind the last. -/
def pictures (plane : Fin 3 → Nat → UInt8) (raws : List Raw) (field : Nat) : Jpeg :=
  match raws[field]? with
  | some raw => raw.lossless plane
  | none => ⟨none, fun _ => none, false, false⟩

end SmartPrince.Common.JpegEncode

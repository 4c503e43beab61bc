import SmartPrince.Common.JpegEncode

/-! # Fields and chroma formats, `decode_jpeg_raw`

The function in full: a frame may come as two fields, one after the other in
the buffer, and its chroma may be wanted for every row. `Common.JpegUtils` has
what is left of it where neither is so. -/
namespace SmartPrince.Common.JpegFields
open SmartPrince.Lib.Fill SmartPrince.Lib.Loop
open SmartPrince.Common.JpegUtils SmartPrince.Common.JpegEncode

/-- A frame that passed the checks: the picture its fields make up. -/
structure Fields where
  frame : Picture
  numfields : Nat

theorem supported_vsf {hd : Header} (h : hd.Supported) :
    hd.vSampFactor 0 = 1 ∨ hd.vSampFactor 0 = 2 := h.2.2.2.1

/-- The checks before the first row is read. -/
def accept (hd : Header) (width height : Nat) : Option Fields :=
  if hd.outputComponents ≠ 3 then none
  else if hs : hd.Supported then
    if hd.hSampFactor 0 = 1 ∧ height % 8 ≠ 0 then none
    else
      let fields (numfields : Nat) : Option Fields :=
        if hd.outputWidth > maxLumaWidth then none
        else some {
          frame := {
            width, height
            outputWidth := hd.outputWidth
            outputHeight := height
            hsf := hd.hSampFactor 0
            vsf := hd.vSampFactor 0
            vsf_cases := supported_vsf hs
            same_height := rfl }
          numfields }
      if hd.outputHeight = height then fields 1
      else if 2 * hd.outputHeight = height then fields 2
      else none
  else none

variable (q : Fields) (ctype : Int)

/-! ## One block of rows -/

def luma (row0 : Rows) (d : Decoding) : Decoding :=
  { d with
    raw0 := loop (8 * q.frame.vsf) (fun y =>
      lumaRow q.frame (row0 y) ((d.yl + y * q.numfields) * q.frame.width)) d.raw0
    yl := d.yl + 8 * q.frame.vsf * q.numfields }

/-- Vertical resampling of chroma. -/
def chroma (chr1 chr2 : Rows) (yc : Nat) (s : Chroma) : Chroma :=
  let row (asserted : Bool) (j : Nat) (u v : Nat → UInt8) : Chroma → Chroma :=
    chromaRow q.frame asserted (yc + j * q.numfields) u v
  if ctype = y4mChroma422 then
    if q.frame.vsf = 1 then
      -- Just copy
      loop 8 (fun y => row false y (chr1 y) (chr2 y)) s
    else
      -- upsample
      loop 8 (fun y s => row false (2 * y + 1) (chr1 y) (chr2 y) (row false (2 * y) (chr1 y) (chr2 y) s)) s
  else if q.frame.vsf = 1 then
    -- Really downsample
    loop 4 (fun j => row true j (fun x => half (chr1 (2 * j) x) (chr1 (2 * j + 1) x))
      (fun x => half (chr2 (2 * j) x) (chr2 (2 * j + 1) x))) s
  else
    -- Just copy
    loop 8 (fun y => row false y (chr1 y) (chr2 y)) s

/-- The rows of chroma that a block comes to. -/
def chromaRows : Nat :=
  if ctype = y4mChroma422 then if q.frame.vsf = 1 then 8 else 16
  else if q.frame.vsf = 1 then 4 else 8

/-- What follows a call of `jpeg_read_raw_data`, and whether the process was aborted. -/
def block (rows : Fin 3 → Rows) (d : Decoding) : Decoding × Bool :=
  let d := luma q (rows 0) d
  let row1 := if q.frame.hsf = 1 then halved q.frame (rows 1) d.buf1 else rows 1
  let row2 := if q.frame.hsf = 1 then halved q.frame (rows 2) d.buf2 else rows 2
  let s := chroma q ctype (chr q.frame row1) (chr q.frame row2) d.yc ⟨d.raw1, d.raw2, false⟩
  ({ d with
      raw1 := s.raw1, raw2 := s.raw2
      yc := d.yc + chromaRows q ctype * q.numfields
      buf1 := row1, buf2 := row2 }, s.aborted)

/-! ## A field, and the frame -/

/-- The loop over `dinfo.output_scanline`; `k` calls of `jpeg_read_raw_data` were made. -/
def scan (jpeg : Jpeg) (outputHeight k scanline : Nat) (d : Decoding) : Decoding × Stop :=
  if scanline < outputHeight then
    match jpeg.rawData k with
    | none => (d, .error)
    | some rows =>
      if (block q ctype rows d).2 then ((block q ctype rows d).1, .aborted)
      else scan jpeg outputHeight (k + 1) (scanline + 8 * q.frame.vsf) (block q ctype rows d).1
  else (d, .done)
termination_by outputHeight - scanline
decreasing_by
  have := q.frame.vsf_cases
  omega

/-- The loop over `field`, of which `left` are to come. The header of the second
field is read, but not checked. -/
def decodeFields (first : Nat → Nat) (jpeg : Nat → Jpeg) : Nat → Nat → Decoding → Decoding × Stop
  | 0, _, d => (d, .done)
  | left + 1, field, d =>
    match (jpeg field).start with
    | none => (d, .error)
    | some hd =>
      match scan q ctype (jpeg field) hd.outputHeight 0 0
          { d with yl := first field, yc := first field } with
      | (d, .done) =>
        if (jpeg field).finish then decodeFields first jpeg left (field + 1) d else (d, .error)
      | (d, stop) => (d, stop)

/-- `jpeg` are the pictures in the buffer, `buf1` and `buf2` the static rows as an
earlier call left them. -/
def decodeJpegRaw (jpeg : Nat → Jpeg) (buf1 buf2 : Rows) (itype ctype : Int) (width height : Nat) :
    Decoded :=
  let refused : Decoded := ⟨fun _ _ => none, some (-1)⟩
  match (jpeg 0).start with
  | none => refused
  | some hd =>
    match accept hd width height with
    | none => refused
    | some q =>
      -- Input is interlaced but no interlacing set
      if q.numfields = 2 ∧ numfields itype ≠ 2 then refused
      else
        let first := if q.numfields = 2 then firstRow itype else fun _ => 0
        let (d, stop) := decodeFields q ctype first jpeg q.numfields 0
          ⟨fun _ => none, fun _ => none, fun _ => none, 0, 0, buf1, buf2⟩
        ⟨d.raw, match stop with
          | .error => some (-1)
          | .aborted => none
          | .done => some (if (List.range q.numfields).any fun f => (jpeg f).warningSeen then 1 else 0)⟩

end SmartPrince.Common.JpegFields

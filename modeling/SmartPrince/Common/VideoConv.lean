import SmartPrince.Lib.CInt
import SmartPrince.Lib.Memory

/-! # The frame converters of `video_conv.c`

Each converter is a pointer walk over byte memory, kept as one: the cursors
of the source are the cursors of the loops here. Dimensions are natural
numbers, and so are their products, which are `int` in the source; the bit
position of the Sonix decoder is an `int` here too. Bytes are 8 bits wide and
every store truncates. -/
namespace SmartPrince.Common.VideoConv
open SmartPrince.Lib.CInt SmartPrince.Lib.Loop SmartPrince.Lib.Memory

variable {ι : Type} [DecidableEq ι]

/-- `CLAMP` of `video_conv.h`. -/
def clamp (x : Int) : Int := if x < 0 then 0 else if x > 255 then 255 else x

/-! ## Packed 4:2:2 to planar 4:2:0 -/

structure Yuv422Cursor (ι : Type) where
  src : Ptr ι
  src2 : Ptr ι
  dest : Ptr ι
  dest2 : Ptr ι

/-- `*dest++ = *src; src += 2;` -/
def yuv422Luma (_ : Nat) : (Ptr ι × Ptr ι) × Mem ι → (Ptr ι × Ptr ι) × Mem ι
  | ((src, dest), mem) => ((src + 2, dest + 1), mem.copy dest src)

/-- `((int) *src + (int) *src2) / 2` stored at `dest`. -/
def average (src src2 dest : Ptr ι) (mem : Mem ι) : Mem ι :=
  let (a, mem) := mem.load src
  let (b, mem) := mem.load src2
  mem.store dest (UInt8.ofNat ((a.toNat + b.toNat) / 2))

def yuv422Chroma (_ : Nat) : Yuv422Cursor ι × Mem ι → Yuv422Cursor ι × Mem ι
  | (c, mem) =>
    let mem := average c.src c.src2 c.dest mem
    let c := { c with src := c.src + 2, src2 := c.src2 + 2, dest := c.dest + 1 }
    let mem := average c.src c.src2 c.dest2 mem
    ({ c with src := c.src + 2, src2 := c.src2 + 2, dest2 := c.dest2 + 1 }, mem)

def yuv422ChromaRow (width : Nat) (_ : Nat) (s : Yuv422Cursor ι × Mem ι) :
    Yuv422Cursor ι × Mem ι :=
  let (c, mem) := loop (width / 2) yuv422Chroma s
  ({ c with src := c.src + width * 2, src2 := c.src2 + width * 2 }, mem)

def convYuv422to420p (map capMap : Ptr ι) (width height : Nat) (mem : Mem ι) : Mem ι :=
  -- Create the Y plane
  let (_, mem) := loop (width * height) yuv422Luma ((capMap, map), mem)
  -- Create U and V planes
  let dest := map + width * height
  let c : Yuv422Cursor ι :=
    { src := capMap + 1, src2 := capMap + (width * 2 + 1), dest, dest2 := dest + width * height / 4 }
  (loop (height / 2) (yuv422ChromaRow width) (c, mem)).2

structure UyvyCursor (ι : Type) where
  pY : Ptr ι
  pU : Ptr ι
  pV : Ptr ι
  capMap : Ptr ι

/-- `calc = *cap_map; calc += *(cap_map + uv_offset); calc /= 2;` with the
16-bit `calc` of the source, stored at `dest`. -/
def uyvyCalc (capMap dest : Ptr ι) (uvOffset : Nat) (mem : Mem ι) : Mem ι :=
  let (a, mem) := mem.load capMap
  let (b, mem) := mem.load (capMap + uvOffset)
  mem.store dest (UInt8.ofNat ((a.toNat + b.toNat) % 2 ^ 16 / 2))

/-- `*pY++ = *cap_map++` -/
def uyvyLuma (c : UyvyCursor ι) (mem : Mem ι) : UyvyCursor ι × Mem ι :=
  ({ c with pY := c.pY + 1, capMap := c.capMap + 1 }, mem.copy c.pY c.capMap)

/-- Two pixels of row `ix`; `jx` of the source is twice the turn's number. -/
def uyvyPair (uvOffset ix : Nat) (_ : Nat) (s : UyvyCursor ι × Mem ι) : UyvyCursor ι × Mem ι :=
  let (c, mem) := s
  let (c, mem) :=
    if ix % 2 = 0 then ({ c with pU := c.pU + 1 }, uyvyCalc c.capMap c.pU uvOffset mem)
    else (c, mem)
  let (c, mem) := uyvyLuma { c with capMap := c.capMap + 1 } mem
  let (c, mem) :=
    if ix % 2 = 0 then ({ c with pV := c.pV + 1 }, uyvyCalc c.capMap c.pV uvOffset mem)
    else (c, mem)
  uyvyLuma { c with capMap := c.capMap + 1 } mem

def convUyvyto420p (map capMap : Ptr ι) (width height : Nat) (mem : Mem ι) : Mem ι :=
  let pU := map + width * height
  let pV := pU + width * height / 4
  (loop height (fun ix => loop ((width + 1) / 2) (uyvyPair (width * 2) ix))
    (⟨map, pU, pV, capMap⟩, mem)).2

/-! ## RGB24 to planar 4:2:0 -/

structure RgbCursor (ι : Type) where
  y : Ptr ι
  u : Ptr ι
  v : Ptr ι
  r : Ptr ι
  g : Ptr ι
  b : Ptr ι

/-- `(9796 * r + 19235 * g + 3736 * b) >> 15` -/
def lumaOf (r g b : UInt8) : Int :=
  (9796 * r.toNat + 19235 * g.toNat + 3736 * b.toNat : Int) >>> (15 : Nat)

/-- `((-4784 * r - 9437 * g + 14221 * b) >> 17) + 32` -/
def uOf (r g b : UInt8) : Int :=
  ((-4784 * r.toNat - 9437 * g.toNat + 14221 * b.toNat : Int) >>> (17 : Nat)) + 32

/-- `((20218 * r - 16941 * g - 3277 * b) >> 17) + 32` -/
def vOf (r g b : UInt8) : Int :=
  ((20218 * r.toNat - 16941 * g.toNat - 3277 * b.toNat : Int) >>> (17 : Nat)) + 32

/-- `*p += x` on a byte. -/
def addTo (p : Ptr ι) (x : Int) (mem : Mem ι) : Mem ι :=
  let (a, mem) := mem.load p
  mem.store p (UInt8.ofInt (a.toNat + x))

/-- One pixel: its luma byte, and its share of the chroma bytes at `u` and `v`. -/
def rgbPixel (s : RgbCursor ι × Mem ι) : RgbCursor ι × Mem ι :=
  let (c, mem) := s
  let (r, mem) := mem.load c.r
  let (g, mem) := mem.load c.g
  let (b, mem) := mem.load c.b
  let mem := mem.store c.y (UInt8.ofInt (lumaOf r g b))
  let mem := addTo c.u (uOf r g b) mem
  let mem := addTo c.v (vOf r g b) mem
  ({ c with y := c.y + 1, r := c.r + 3, g := c.g + 3, b := c.b + 3 }, mem)

def rgbPair (_ : Nat) (s : RgbCursor ι × Mem ι) : RgbCursor ι × Mem ι :=
  let (c, mem) := rgbPixel (rgbPixel s)
  ({ c with u := c.u + 1, v := c.v + 1 }, mem)

def rgbRow (width loopIdx : Nat) (s : RgbCursor ι × Mem ι) : RgbCursor ι × Mem ι :=
  let (c, mem) := loop ((width + 1) / 2) rgbPair s
  if loopIdx % 2 = 0 then ({ c with u := c.u - width / 2, v := c.v - width / 2 }, mem)
  else (c, mem)

def convRgb24toyuv420p (map capMap : Ptr ι) (width height : Nat) (mem : Mem ι) : Mem ι :=
  let b := capMap
  let g := b + 1
  let r := g + 1
  let u := map + width * height
  let v := u + width * height / 4
  let mem := mem.memset u 0 (width * height / 4)
  let mem := mem.memset v 0 (width * height / 4)
  (loop height (rgbRow width) (⟨map, u, v, r, g, b⟩, mem)).2

/-! ## Planar 4:2:0 to RGB24 and to grey -/

structure Yuv420Cursor (ι : Type) where
  l : Ptr ι
  u : Ptr ι
  v : Ptr ι
  rgb : Ptr ι

/-- The three sums of a pixel, under the source's names. -/
structure Rgb where
  r : Int
  g : Int
  b : Int

def rgbOf (l u v : UInt8) : Rgb :=
  let l : Int := l.toNat
  let u : Int := u.toNat
  let v : Int := v.toNat
  { r := (76283 * (l - 16) + 104595 * (u - 128)) >>> (16 : Nat)
    g := (76283 * (l - 16) - 53281 * (u - 128) - 25625 * (v - 128)) >>> (16 : Nat)
    b := (76283 * (l - 16) + 132252 * (v - 128)) >>> (16 : Nat) }

/-- ppm is rgb not bgr -/
def gbr24Bytes (c : Rgb) : List UInt8 :=
  [UInt8.ofInt (clamp c.b), UInt8.ofInt (clamp c.g), UInt8.ofInt (clamp c.r)]

def grayByte (c : Rgb) : UInt8 :=
  UInt8.ofInt ((clamp c.b * 100 + clamp c.g * 700 + clamp c.r * 100) >>> (10 : Nat))

/-- Pixel `x` of a row; `out` gives the bytes stored at `rgb_buffer`. -/
def yuv420Pixel (out : Rgb → List UInt8) (x : Nat) (s : Yuv420Cursor ι × Mem ι) :
    Yuv420Cursor ι × Mem ι :=
  let (c, mem) := s
  let (l, mem) := mem.load c.l
  let (u, mem) := mem.load c.u
  let (v, mem) := mem.load c.v
  let bytes := out (rgbOf l u v)
  let c := { c with l := c.l + 1 }
  let c := if x % 2 = 1 then { c with u := c.u + 1, v := c.v + 1 } else c
  ({ c with rgb := c.rgb + bytes.length }, mem.put c.rgb bytes)

def yuv420Row (out : Rgb → List UInt8) (width y : Nat) (s : Yuv420Cursor ι × Mem ι) :
    Yuv420Cursor ι × Mem ι :=
  let (c, mem) := loop width (yuv420Pixel out) s
  if y % 2 = 1 then ({ c with u := c.u - width / 2, v := c.v - width / 2 }, mem)
  else (c, mem)

/-- The walk the two converters from YUV420P share. -/
def convYuv420p (out : Rgb → List UInt8) (yuvBuffer rgbBuffer : Ptr ι) (width height : Nat)
    (mem : Mem ι) : Mem ι :=
  let u := yuvBuffer + width * height
  let v := u + width * height / 4
  (loop height (yuv420Row out width) (⟨yuvBuffer, u, v, rgbBuffer⟩, mem)).2

def convYuv420pToGbr24 (yuvBuffer rgbBuffer : Ptr ι) (width height : Nat) (mem : Mem ι) : Mem ι :=
  convYuv420p gbr24Bytes yuvBuffer rgbBuffer width height mem

def convYuv420pToGray (yuvBuffer rgbBuffer : Ptr ι) (width height : Nat) (mem : Mem ι) : Mem ι :=
  convYuv420p (fun c => [grayByte c]) yuvBuffer rgbBuffer width height mem

/-! ## Bayer to RGB24 -/

/-- The raw samples whose truncated mean is stored as B, G and R of pixel `i`. -/
def bayerSites (rawpt : Ptr ι) (width height i : Nat) :
    List (Ptr ι) × List (Ptr ι) × List (Ptr ι) :=
  let cross := [rawpt - 1, rawpt + 1, rawpt + width, rawpt - width]
  let corners := [rawpt - width - 1, rawpt - width + 1, rawpt + width - 1, rawpt + width + 1]
  if i / width % 2 = 0 then
    if i % 2 = 0 then
      -- B
      if i > width ∧ i % width > 0 then ([rawpt], cross, corners)
      else ([rawpt], [rawpt + 1, rawpt + width], [rawpt + width + 1])
    else
      -- (B)G
      if i > width ∧ i % width < width - 1 then
        ([rawpt - 1, rawpt + 1], [rawpt], [rawpt + width, rawpt - width])
      else ([rawpt - 1], [rawpt], [rawpt + width])
  else
    if i % 2 = 0 then
      -- G(R)
      if i < width * (height - 1) ∧ i % width > 0 then
        ([rawpt + width, rawpt - width], [rawpt], [rawpt - 1, rawpt + 1])
      else ([rawpt - width], [rawpt], [rawpt + 1])
    else
      -- R
      if i < width * (height - 1) ∧ i % width < width - 1 then
        (corners, [rawpt - 1, rawpt + 1, rawpt - width, rawpt + width], [rawpt])
      else ([rawpt - width - 1], [rawpt - 1, rawpt - width], [rawpt])

/-- `*scanpt = (*p + *q + …) / n` -/
def scanMean (scanpt : Ptr ι) (sites : List (Ptr ι)) (mem : Mem ι) : Mem ι :=
  let (s, mem) := mem.sum sites
  mem.store scanpt (UInt8.ofNat (s / sites.length))

def bayerPixel (width height i : Nat) : (Ptr ι × Ptr ι) × Mem ι → (Ptr ι × Ptr ι) × Mem ι
  | ((rawpt, scanpt), mem) =>
    let (b, g, r) := bayerSites rawpt width height i
    let mem := scanMean scanpt b mem
    let mem := scanMean (scanpt + 1) g mem
    let mem := scanMean (scanpt + 2) r mem
    ((rawpt + 1, scanpt + 3), mem)

def bayer2rgb24 (dst src : Ptr ι) (width height : Nat) (mem : Mem ι) : Mem ι :=
  (loop (width * height) (bayerPixel width height) ((src, dst), mem)).2

/-! ## Sonix SN9C10x decompression -/

structure CodeTable where
  isAbs : Bool
  val : Int
  len : Nat
  deriving DecidableEq, Repr

/-- Entry `i` of the table `sonix_decompress_init` fills. -/
def sonixDecompressInit (i : Nat) : CodeTable :=
  if i &&& 0x80 = 0 then { isAbs := false, val := 0, len := 1 }              -- code 0
  else if i &&& 0xE0 = 0x80 then { isAbs := false, val := 4, len := 3 }      -- code 100
  else if i &&& 0xE0 = 0xA0 then { isAbs := false, val := -4, len := 3 }     -- code 101
  else if i &&& 0xF0 = 0xD0 then { isAbs := false, val := 11, len := 4 }     -- code 1101
  else if i &&& 0xF0 = 0xF0 then { isAbs := false, val := -11, len := 4 }    -- code 1111
  else if i &&& 0xF8 = 0xC8 then { isAbs := false, val := 20, len := 5 }     -- code 11001
  else if i &&& 0xFC = 0xC0 then { isAbs := false, val := -20, len := 6 }    -- code 110000
  else if i &&& 0xFC = 0xC4 then { isAbs := false, val := 0, len := 8 }      -- code 110001xx
  else if i &&& 0xF0 = 0xE0 then
    { isAbs := true, val := ((i &&& 0x0F) <<< 4 : Nat), len := 8 }           -- code 1110xxxx
  else { isAbs := false, val := 0, len := 0 }

structure SonixCursor (ι : Type) where
  outp : Ptr ι
  bitpos : Int

/-- The eight bits of the stream from `bitpos` on, as the shifted two-byte window. -/
def sonixCode (inp : Ptr ι) (bitpos : Int) (mem : Mem ι) : UInt8 × Mem ι :=
  let addr := inp.shift (bitpos / 8)  -- bitpos >> 3
  let shift := (bitpos % 8).toNat     -- bitpos & 7
  let (a0, mem) := mem.load addr
  let (a1, mem) := mem.load (addr + 1)
  (UInt8.ofNat ((a0.toNat <<< shift) ||| (a1.toNat >>> (8 - shift))), mem)

/-- A pixel stored as a raw byte. -/
def sonixRaw (inp : Ptr ι) (_ : Nat) (s : SonixCursor ι × Mem ι) : SonixCursor ι × Mem ι :=
  let (c, mem) := s
  let (code, mem) := sonixCode inp c.bitpos mem
  (⟨c.outp + 1, int (c.bitpos + 8)⟩, mem.store c.outp code)

/-- A pixel stored as a codeword. -/
def sonixPixel (inp : Ptr ι) (width row col : Nat) (s : SonixCursor ι × Mem ι) :
    SonixCursor ι × Mem ι :=
  let (c, mem) := s
  -- get bitcode from bitstream
  let (code, mem) := sonixCode inp c.bitpos mem
  let entry := sonixDecompressInit code.toNat
  -- calculate pixel value
  let (val, mem) : Int × Mem ι :=
    if entry.isAbs then (entry.val, mem)
    else if col < 2 then
      -- left column: relative to top pixel
      let (top, mem) := mem.load (c.outp.shift (int (-2 * width)))
      (entry.val + top.toNat, mem)
    else if row < 2 then
      -- top row: relative to left pixel
      let (left, mem) := mem.load (c.outp - 2)
      (entry.val + left.toNat, mem)
    else
      -- main area: average of left pixel and top pixel
      let (left, mem) := mem.load (c.outp - 2)
      let (top, mem) := mem.load (c.outp.shift (int (-2 * width)))
      (entry.val + ((left.toNat + top.toNat) / 2 : Nat), mem)
  (⟨c.outp + 1, int (c.bitpos + entry.len)⟩, mem.store c.outp (UInt8.ofInt (clamp val)))

def sonixRow (inp : Ptr ι) (width row : Nat) (s : SonixCursor ι × Mem ι) : SonixCursor ι × Mem ι :=
  -- first two pixels in first two rows are stored as raw 8-bit
  let raw := if row < 2 then 2 else 0
  let s := loop raw (sonixRaw inp) s
  loop (width - raw) (fun k => sonixPixel inp width row (raw + k)) s

def sonixDecompress (outp inp : Ptr ι) (width height : Nat) (mem : Mem ι) : Mem ι :=
  (loop height (sonixRow inp width) (⟨outp, 0⟩, mem)).2

/-! ## Motion JPEG -/

/-- What `decode_jpeg_raw` returns and the bytes it stores in the three
planes it is given; it leaves the other bytes of the planes as they are. -/
structure DecodeJpeg where
  ret : Int
  raw : Fin 3 → Nat → Option UInt8

/-- `decode_jpeg_raw`: the compressed bytes, their number, width and height. -/
abbrev DecodeJpegRaw := (Nat → UInt8) → Nat → Nat → Nat → DecodeJpeg

/-- The bytes stored by a decoder in the object at `p`. -/
def decodeInto (p : Ptr ι) (raw : Nat → Option UInt8) (mem : Mem ι) : Mem ι :=
  { mem with byte := fun q =>
      if q.base = p.base ∧ p.off ≤ q.off then (raw (q.off - p.off).toNat).getD (mem.byte q)
      else mem.byte q }

/-- `yuv` are the three blocks the function allocates. -/
def mjpegtoyuv420p (decodeJpegRaw : DecodeJpegRaw) (yuv : Fin 3 → Ptr ι) (map capMap : Ptr ι)
    (width height size : Nat) (mem : Mem ι) : Int × Mem ι :=
  let dec := decodeJpegRaw (fun k => mem.byte (capMap + k)) size width height
  let mem := decodeInto (yuv 0) (dec.raw 0) mem
  let mem := decodeInto (yuv 1) (dec.raw 1) mem
  let mem := decodeInto (yuv 2) (dec.raw 2) mem
  let ret := if dec.ret = 1 then 2 else dec.ret
  let u := map + width * height
  let v := u + width * height / 4
  let mem := mem.memset map 0 (width * height)
  let mem := mem.memset u 0 (width * height / 4)
  let mem := mem.memset v 0 (width * height / 4)
  let mem := mem.memcpy map (yuv 0) (width * height)
  let mem := mem.memcpy u (yuv 1) (width * height / 4)
  let mem := mem.memcpy v (yuv 2) (width * height / 4)
  (ret, mem)

end SmartPrince.Common.VideoConv

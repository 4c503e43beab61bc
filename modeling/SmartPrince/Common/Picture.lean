import Mathlib.Algebra.GroupWithZero.Nat
import Mathlib.Algebra.Ring.Int.Defs
import Mathlib.Algebra.Ring.Nat
import SmartPrince.Net.HttpParser

/-! # The mask file, `picture.c`

`get_pgm` reads a picture for the fixed mask. The file is the list of the bytes
from its position on. An array that `malloc` returns holds no bytes yet, and a
byte computed from one that was never written is `none`. -/
namespace SmartPrince.Common.Picture
open SmartPrince.Lib.CString
open SmartPrince.Net.HttpParser (isspace)

/-! ## Lines and numbers -/

/-- The bytes up to a line feed, at most `n`, and those behind them. -/
def readLine : (n : Nat) → (stream : List UInt8) → List UInt8 × List UInt8
  | 0, stream => ([], stream)
  | _, [] => ([], [])
  | n + 1, c :: stream =>
    if c = 10 then ([c], stream)
    else
      let (line, rest) := readLine n stream
      (c :: line, rest)

/-- `fgets(line, size, picture)`: the bytes before the NUL, and the rest of the file. -/
def fgets (size : Nat) (stream : List UInt8) : Option (List UInt8 × List UInt8) :=
  if stream = [] then none else some (readLine (size - 1) stream)

def isdigit (c : UInt8) : Bool := decide (48 ≤ c) && decide (c ≤ 57)

def digitsValue (digits : List UInt8) : Nat := digits.foldl (fun n c => 10 * n + (c.toNat - 48)) 0

/-- What `%d` converts at the start of a text, and the text behind it. -/
def scanInt (text : List UInt8) : Option (Int × List UInt8) :=
  let text := text.dropWhile isspace
  let negative := text.head? = some '-'.toUInt8
  let text := if negative ∨ text.head? = some '+'.toUInt8 then text.tail else text
  let digits := text.takeWhile isdigit
  let n : Int := digitsValue digits
  if digits = [] then none else some (if negative then -n else n, text.dropWhile isdigit)

/-- `"%d %d"`, where both are converted. -/
def scanTwo (text : List UInt8) : Option (Int × Int) :=
  match scanInt text with
  | none => none
  | some (x, text) =>
    match scanInt text with
    | none => none
    | some (y, _) => some (x, y)

/-! ## `get_pgm` -/

/-- `line[0] == '#'` -/
def isComment (line : List UInt8) : Bool := line.head? = some '#'.toUInt8

/-- The loop that skips comments, over what reads a line. -/
def skipComment (next : List UInt8 → Option (List UInt8 × List UInt8)) :
    (turns : Nat) → (stream : List UInt8) → Option (List UInt8 × List UInt8)
  | 0, _ => none
  | turns + 1, stream =>
    match next stream with
    | none => none
    | some (line, rest) => if isComment line then skipComment next turns rest else some (line, rest)

/-- What is returned. It is undefined where the size of the array is no `int`,
and where it is divided by zero. -/
inductive Outcome where
  | null
  | undefined
  | image (bytes : List (Option UInt8))
  deriving DecidableEq, Repr

/-- `(int)image[i] * 255 / maxval`, as the byte that is stored. -/
def scaled (maxval : Int) (raw : UInt8) : UInt8 := UInt8.ofInt (((raw.toNat : Int) * 255).tdiv maxval)

/-- What `fread` leaves in a row: the bytes there are, however few. -/
def readRow (width : Nat) (stream : List UInt8) : List (Option UInt8) :=
  (stream.take width).map some ++ List.replicate (width - stream.length) none

/-- The loop over the rows. -/
def readRows (width : Nat) (maxval : Int) : (rows : Nat) → (stream : List UInt8) →
    List (Option UInt8)
  | 0, _ => []
  | rows + 1, stream =>
    (readRow width stream).map (Option.map (scaled maxval)) ++
      readRows width maxval rows (stream.drop width)

section GetPgm
variable (toInt : Int → Int)

/-- From the allocation on; the sizes are not 0, so the first byte is divided. -/
def readImage (width height : Nat) (maxval : Int) (stream : List UInt8) : Outcome :=
  if 2 ^ 31 ≤ width * height then .undefined
  else if maxval = 0 then .undefined
  else .image (readRows width maxval height stream)

/-- `toInt` is the `int` that `sscanf` stores for a number. No file has more
lines than bytes. -/
def getPgm (width height : Nat) (picture : List UInt8) : Outcome :=
  match fgets 255 picture with
  | none => .null
  | some (line, rest) =>
    if line.take 2 ≠ ofText "P5" then .null
    else
      match skipComment (fgets 255) (rest.length + 1) rest with
      | none => .null
      | some (line, rest) =>
        match scanTwo line with
        | none => .null
        | some (x, y) =>
          if toInt x ≠ width ∨ toInt y ≠ height then .null
          else
            match skipComment (fgets 255) (rest.length + 1) rest with
            | none => .null
            | some (line, rest) =>
              match scanInt line with
              | none => .null
              | some (maxval, _) => readImage width height (toInt maxval) rest

end GetPgm

end SmartPrince.Common.Picture

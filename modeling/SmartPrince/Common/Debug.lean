import SmartPrince.Common.File

/-! # The log messages, `debug.c`

`debug_log` puts a message together in an array on its stack: every append
computes on its own where it writes and how much room is left. Here each store
is noted beside the bytes it leaves, so that one behind the array is seen. -/
namespace SmartPrince.Common.Debug
open SmartPrince.Lib.CString SmartPrince.Common.File

/-- `sizeof(buf)` -/
def bufSize : Nat := 1024

/-- Bytes written from an offset in `buf` on. -/
structure Store where
  off : Int
  bytes : List UInt8
  deriving DecidableEq, Repr

/-- The bytes from `buf` on, with what lies behind the array, and the stores so far. -/
structure Buffer where
  bytes : List UInt8
  stores : List Store
  deriving DecidableEq, Repr

def Buffer.store (b : Buffer) (off : Int) (bytes : List UInt8) : Buffer :=
  ⟨put b.bytes off bytes, b.stores ++ [⟨off, bytes⟩]⟩

def Buffer.strlen (b : Buffer) : Nat := Lib.CString.strlen b.bytes

/-- `sizeof(buf) - n` and `1024 - strlen(buf)`: a `size_t`. -/
def room (n : Int) : Nat := (((bufSize : Int) - n) % 2 ^ 64).toNat

/-- What `vsnprintf` and `strerror_r` store of a text where there is room for `size` bytes. -/
def fitting (size : Nat) (text : List UInt8) : List UInt8 :=
  if size = 0 then [] else snprintf size text

/-- What `snprintf` and `vsnprintf` return: the length of the whole text, and -1
where it is no `int`. -/
def printed (text : List UInt8) : Int :=
  if text.length < 2 ^ 31 then text.length else -1

/-- The sum of two `int`s. -/
def addInt (m n : Int) : Int := (m + n).bmod (2 ^ 32)

def Buffer.strncat (b : Buffer) (src : List UInt8) (n : Nat) : Buffer :=
  b.store b.strlen (src.take n ++ [0])

def Buffer.strcat (b : Buffer) (src : List UInt8) : Buffer :=
  b.store b.strlen (src ++ [0])

/-- Which `strerror_r` the preprocessor finds: the one that stores the text
where it is told to, or GNU's, which returns it. -/
inductive StrerrorR where
  | posix
  | gnu
  deriving DecidableEq, Repr

/-- `"[%d] "` -/
def threadText (threadnr : Int32) : List UInt8 :=
  ofText "[" ++ decimal threadnr.toInt ++ ofText "] "

/-- The message behind the thread number, and `n` behind both. -/
def addMessage (threadnr : Int32) (msg : List UInt8) (b : Buffer) : Buffer × Int :=
  let n := printed (threadText threadnr)
  let b := b.store 0 (fitting bufSize (threadText threadnr))
  (b.store n (fitting (room n) msg), addInt n (printed msg))

def addErrno (strerrorR : StrerrorR) (err : List UInt8) (b : Buffer) (n : Int) : Buffer :=
  let b := b.strncat (ofText ": ") (room b.strlen)
  let n := addInt n 2
  match strerrorR with
  | .posix => b.store n (fitting (room n) err)
  | .gnu => b.strncat err (room b.strlen)

/-- `msg` is the message that the format and its arguments make, `err` the text
of `errno_save`; `buf` and `behind` are what lies in the array and behind it. -/
def debugLog (strerrorR : StrerrorR) (threadnr : Int32) (errnoFlag : Bool) (msg err : List UInt8)
    (buf : Vector UInt8 bufSize) (behind : List UInt8) : Buffer :=
  let (b, n) := addMessage threadnr msg ⟨buf.toList ++ behind, []⟩
  let b := if errnoFlag then addErrno strerrorR err b n else b
  b.strcat (ofText "\n")

end SmartPrince.Common.Debug

import SmartPrince.Common.File
import SmartPrince.Common.Picture
import SmartPrince.Lib.Readers

/-! # Extensions from a command line, `wpiExtensions.c`

An extension is named in one text: its name, the number of its first pin, and
the parameters of its setup function, all with colons between them. A pointer
into the text is the bytes from it on, those behind the terminating NUL
included. -/
namespace SmartPrince.Wiring.Extensions
open SmartPrince.Lib.CString SmartPrince.Lib.Readers
open SmartPrince.Common.File (decimal)
open SmartPrince.Common.Picture (isdigit)

/-! ## Errors -/

/-- What `verbError` is called with. -/
inductive Error where
  | colonExpected
  | digitExpected
  | characterExpected
  | i2cAddress (i2c : Int)
  | spiAddress (spi : Int)
  | spiChannel (spi : Int)
  | portAddress (port : Int)
  | pinCount (pins : Int)
  | sampleRate (rate : Int)
  | gain (gain : Int)
  | pins (pins : Int)
  | serialPort
  | baudRate (baud : Int)
  | ipAddress
  | password
  | noColon
  | noPinBase
  | pinBaseTooLarge
  | pinBaseTooSmall (pinBase : Int)
  | notFound (extension : List UInt8)
  deriving DecidableEq, Repr

/-- `%X` -/
def hexadecimal (n : Int) : List UInt8 :=
  ((Nat.toDigits 16 (BitVec.ofInt 32 n).toNat).map Char.toUpper).map Char.toUInt8

/-- The message, behind the `"%s: "` for the name of the program. -/
def Error.text : Error → List UInt8
  | .colonExpected => ofText "colon expected"
  | .digitExpected => ofText "digit expected"
  | .characterExpected => ofText "character expected"
  | .i2cAddress n => ofText "i2c address (0x" ++ hexadecimal n ++ ofText ") out of range"
  | .spiAddress n => ofText "SPI address (" ++ decimal n ++ ofText ") out of range"
  | .spiChannel n => ofText "SPI channel (" ++ decimal n ++ ofText ") out of range"
  | .portAddress n => ofText "port address (" ++ decimal n ++ ofText ") out of range"
  | .pinCount n => ofText "pin count (" ++ decimal n ++ ofText ") out of range - 8-32 expected."
  | .sampleRate n => ofText "sample rate (" ++ decimal n ++ ofText ") out of range"
  | .gain n => ofText "gain (" ++ decimal n ++ ofText ") out of range"
  | .pins n => ofText "pins (" ++ decimal n ++ ofText ") out of range (2-1000)"
  | .serialPort => ofText "serial port device name required"
  | .baudRate n => ofText "baud rate (" ++ decimal n ++ ofText ") out of range"
  | .ipAddress => ofText "ipAddress required"
  | .password => ofText "password required"
  | .noColon => ofText "extension name not terminated by a colon"
  | .noPinBase => ofText "decimal pinBase number expected after extension name"
  | .pinBaseTooLarge => ofText "pinBase too large"
  | .pinBaseTooSmall n => ofText "pinBase (" ++ decimal n ++ ofText ") too small. Minimum is 64."
  | .notFound extension => ofText "extension " ++ extension ++ ofText " not found"

/-- What goes to `stderr`. An unknown name is told even where errors are not to be printed. -/
def Error.printed (progName : List UInt8) (verbose : Bool) (e : Error) : List UInt8 :=
  let message := progName ++ ofText ": " ++ e.text
  match e with
  | .notFound _ => message
  | _ => if verbose then cstr (snprintf 1023 message) ++ [10] else []

/-! ## `extractInt` and `extractStr` -/

def isxdigit (c : UInt8) : Bool :=
  isdigit c || (decide (65 ≤ c) && decide (c ≤ 70)) || (decide (97 ≤ c) && decide (c ≤ 102))

def isprint (c : UInt8) : Bool := decide (32 ≤ c) && decide (c ≤ 126)

def digitValue (c : UInt8) : Nat :=
  if isdigit c then c.toNat - 48 else if 97 ≤ c then c.toNat - 87 else c.toNat - 55

/-- A digit of base `b`, at most 16. -/
def digitOf (b : Nat) (c : UInt8) : Bool := isxdigit c && decide (digitValue c < b)

def number (b : Nat) (digits : List UInt8) : Nat := digits.foldl (fun n c => b * n + digitValue c) 0

section Extract
variable (longMax : Nat)

/-- `strtol(p, NULL, 0)` of what starts with a digit; `longMax` is `LONG_MAX`. -/
def strtol (p : List UInt8) : Nat :=
  min longMax <|
    if p.headD 0 = '0'.toUInt8 then
      if (p.tail.headD 0 = 'x'.toUInt8 ∨ p.tail.headD 0 = 'X'.toUInt8) ∧
          isxdigit (p.tail.tail.headD 0) then
        number 16 (p.tail.tail.takeWhile (digitOf 16))
      else number 8 (p.takeWhile (digitOf 8))
    else number 10 (p.takeWhile (digitOf 10))

/-- The integer, and the pointer behind it. -/
def extractInt (p : List UInt8) : Except Error (Int × List UInt8) :=
  if p.headD 0 ≠ ':'.toUInt8 then .error .colonExpected
  else
    let p := p.tail
    if isdigit (p.headD 0) = false then .error .digitExpected
    else
      let num := (BitVec.ofNat 32 (strtol longMax p)).toInt
      -- Increment p, but we need to check for hex 0x
      let p := if p.headD 0 = '0'.toUInt8 ∧ p.tail.headD 0 = 'x'.toUInt8 then p.tail.tail else p
      .ok (num, p.dropWhile isxdigit)

/-- The string may be enclosed in brackets, to escape colons. -/
def extractStr (p : List UInt8) : Except Error (List UInt8 × List UInt8) :=
  if p.headD 0 ≠ ':'.toUInt8 then .error .colonExpected
  else
    let quoted := p.tail.headD 0 = '['.toUInt8
    let p := if quoted then p.tail.tail else p.tail
    if isprint (p.headD 0) = false then .error .characterExpected
    else
      let stop := if quoted then ']'.toUInt8 else ':'.toUInt8
      let str := p.takeWhile fun c => c ≠ 0 && c ≠ stop
      let p := p.drop str.length
      -- Skip over the ] to the :
      .ok (str, if quoted then p.tail else p)

end Extract

/-! ## Parameters -/

inductive Arg where
  | int (n : Int)
  | str (s : List UInt8)
  deriving DecidableEq, Repr

/-- How a function `doExtension…` extracts one parameter. -/
inductive Param where
  | any                                         -- an integer that is not checked
  | int (lo hi : Int) (error : Int → Error)
  | str                                         -- a string that is not checked
  | required (error : Error)                    -- a string that must not be empty
  | port                                        -- the default where it is empty

def Param.isStr : Param → Bool
  | .any | .int .. => false
  | .str | .required _ | .port => true

def Arg.isStr : Arg → Bool
  | .int _ => false
  | .str _ => true

section Load
variable (longMax defaultServerPort : Nat)

def Param.check : Param → Arg → Except Error Arg
  | .int lo hi error, .int n => if n < lo ∨ hi < n then .error (error n) else .ok (.int n)
  | .required error, .str s => if s = [] then .error error else .ok (.str s)
  | .port, .str s => .ok (.str (if s = [] then decimal defaultServerPort else s))
  | _, arg => .ok arg

def Param.extract (param : Param) (p : List UInt8) : Except Error (Arg × List UInt8) :=
  if param.isStr then (extractStr p).map fun (s, p) => (.str s, p)
  else (extractInt longMax p).map fun (n, p) => (.int n, p)

/-- A parameter is extracted, and checked before the next one is. -/
def Param.read (param : Param) : Reader Error (List UInt8) Arg := fun p =>
  (param.extract longMax p).bind fun (arg, p) => (param.check defaultServerPort arg).map (·, p)

inductive SetupFunction where
  | mcp23008Setup | mcp23016Setup | mcp23017Setup | mcp23s08Setup | mcp23s17Setup | sr595Setup
  | pcf8574Setup | ads1115Setup | pcf8591Setup | pseudoPinsSetup | bmp180Setup | htu21dSetup
  | ds18b20Setup | rht03Setup | max31855Setup | mcp3002Setup | mcp3004Setup | max5322Setup
  | mcp4802Setup | sn3218Setup | mcp3422Setup | drcSetupSerial | drcSetupNet
  deriving DecidableEq, Repr

/-- What a function `doExtension…` extracts, and what it calls with that. -/
structure Extension where
  params : List Param
  setup : SetupFunction

/-- The call of a setup function. -/
structure Setup where
  function : SetupFunction
  pinBase : Int
  args : List Arg
  deriving DecidableEq, Repr

def Extension.run (f : Extension) (pinBase : Int) (params : List UInt8) : Except Error Setup :=
  (readAll (f.params.map (Param.read longMax defaultServerPort)) params).map fun r =>
    ⟨f.setup, pinBase, r.1⟩

def i2cAddress (lo : Int) : Param := .int lo 0x77 .i2cAddress

def spiChannel : Param := .int 0 1 .spiChannel

def doExtensionMcp23008 : Extension := ⟨[i2cAddress 0x01], .mcp23008Setup⟩
def doExtensionMcp23016 : Extension := ⟨[i2cAddress 0x03], .mcp23016Setup⟩
def doExtensionMcp23017 : Extension := ⟨[i2cAddress 0x03], .mcp23017Setup⟩
def doExtensionMcp23s08 : Extension :=
  ⟨[.int 0 1 .spiAddress, .int 0 7 .portAddress], .mcp23s08Setup⟩
def doExtensionMcp23s17 : Extension :=
  ⟨[.int 0 1 .spiAddress, .int 0 7 .portAddress], .mcp23s17Setup⟩
def doExtensionSr595 : Extension := ⟨[.int 8 32 .pinCount, .any, .any, .any], .sr595Setup⟩
def doExtensionPcf8574 : Extension := ⟨[i2cAddress 0x03], .pcf8574Setup⟩
def doExtensionAds1115 : Extension := ⟨[i2cAddress 0x03], .ads1115Setup⟩
def doExtensionPcf8591 : Extension := ⟨[i2cAddress 0x03], .pcf8591Setup⟩
def doExtensionPseudoPins : Extension := ⟨[], .pseudoPinsSetup⟩
def doExtensionBmp180 : Extension := ⟨[], .bmp180Setup⟩
def doExtensionHtu21d : Extension := ⟨[], .htu21dSetup⟩
def doExtensionDs18b20 : Extension := ⟨[.str], .ds18b20Setup⟩
def doExtensionRht03 : Extension := ⟨[.any], .rht03Setup⟩
def doExtensionMax31855 : Extension := ⟨[spiChannel], .max31855Setup⟩
def doExtensionMcp3002 : Extension := ⟨[spiChannel], .mcp3002Setup⟩
def doExtensionMcp3004 : Extension := ⟨[spiChannel], .mcp3004Setup⟩
def doExtensionMax5322 : Extension := ⟨[spiChannel], .max5322Setup⟩
def doExtensionMcp4802 : Extension := ⟨[spiChannel], .mcp4802Setup⟩
def doExtensionSn3218 : Extension := ⟨[], .sn3218Setup⟩
def doExtensionMcp3422 : Extension :=
  ⟨[i2cAddress 0x03, .int 0 3 .sampleRate, .int 0 3 .gain], .mcp3422Setup⟩
def doExtensionDrcS : Extension :=
  ⟨[.int 1 1000 .pins, .required .serialPort, .int 1 4000000 .baudRate], .drcSetupSerial⟩
def doExtensionDrcNet : Extension :=
  ⟨[.int 1 1000 .pins, .required .ipAddress, .port, .required .password], .drcSetupNet⟩

def extensionFunctions : List (List UInt8 × Extension) := [
  (ofText "mcp23008", doExtensionMcp23008),
  (ofText "mcp23016", doExtensionMcp23016),
  (ofText "mcp23017", doExtensionMcp23017),
  (ofText "mcp23s08", doExtensionMcp23s08),
  (ofText "mcp23s17", doExtensionMcp23s17),
  (ofText "sr595", doExtensionSr595),
  (ofText "pcf8574", doExtensionPcf8574),
  (ofText "pcf8591", doExtensionPcf8591),
  (ofText "bmp180", doExtensionBmp180),
  (ofText "pseudoPins", doExtensionPseudoPins),
  (ofText "htu21d", doExtensionHtu21d),
  (ofText "ds18b20", doExtensionDs18b20),
  (ofText "rht03", doExtensionRht03),
  (ofText "mcp3002", doExtensionMcp3002),
  (ofText "mcp3004", doExtensionMcp3004),
  (ofText "mcp4802", doExtensionMcp4802),
  (ofText "mcp3422", doExtensionMcp3422),
  (ofText "max31855", doExtensionMax31855),
  (ofText "ads1115", doExtensionAds1115),
  (ofText "max5322", doExtensionMax5322),
  (ofText "sn3218", doExtensionSn3218),
  (ofText "drcs", doExtensionDrcS),
  (ofText "drcn", doExtensionDrcNet)]

/-! ## `loadWPiExtension` -/

/-- Simple ATOI code. -/
def readPinBase : BitVec 32 → List UInt8 → Except Error (BitVec 32 × List UInt8)
  | pinBase, [] => .ok (pinBase, [])
  | pinBase, c :: p =>
    if isdigit c = false then .ok (pinBase, c :: p)
    -- 2^31-1 ... Lets be realistic here...
    else if pinBase > 2147483647 then .error .pinBaseTooLarge
    else readPinBase (pinBase * 10 + BitVec.ofNat 32 (c.toNat - 48)) p

def loadWPiExtension (extensionData : List UInt8) : Except Error Setup :=
  -- Get the extension name by finding the first colon
  let extension := extensionData.takeWhile fun c => c ≠ 0 && c ≠ ':'.toUInt8
  let p := extensionData.drop extension.length
  if p.headD 0 = 0 then .error .noColon
  else if isdigit (p.tail.headD 0) = false then .error .noPinBase
  else
    match readPinBase 0 p.tail with
    | .error e => .error e
    | .ok (pinBase, p) =>
      if pinBase < 64 then .error (.pinBaseTooSmall pinBase.toInt)
      else
        match extensionFunctions.find? fun f => f.1 = extension with
        | some (_, f) => f.run longMax defaultServerPort pinBase.toInt p
        | none => .error (.notFound extension)

end Load

end SmartPrince.Wiring.Extensions

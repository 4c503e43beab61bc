import Mathlib.Logic.Function.Basic
import SmartPrince.Lib.Register
import SmartPrince.Wiring.Nodes

/-! # The pins of the board

Pin numbers below 64 are pins of the board itself: `wiringPi.c` translates them
to the numbers of the processor, looks up the register words and bits that these
lie in, and reads or writes the words. A look-up beside a table is none. -/
namespace SmartPrince.Wiring.OnBoard
open SmartPrince.Lib.Register SmartPrince.Wiring.Nodes

/-! ## Tables -/

/-- `table [i]` -/
def entry {α : Type} (table : List α) (i : Int) : Option α := if 0 ≤ i then table[i.toNat]? else none

def pinToGpioR1 : List Int := [
  17, 18, 21, 22, 23, 24, 25, 4, 0, 1, 8, 7, 10, 9, 11, 14, 15] ++ List.replicate 47 (-1)

def pinToGpioR2 : List Int := [
  17, 18, 27, 22, 23, 24, 25, 4, 2, 3, 8, 7, 10, 9, 11, 14, 15, 28, 29, 30, 31,
  5, 6, 13, 19, 26, 12, 16, 20, 21, 0, 1] ++ List.replicate 32 (-1)

def physToGpioR1 : List Int := [
  -1, -1, -1, 0, -1, 1, -1, 4, 14, -1, 15, 17, 18, 21, -1, 22, 23, -1, 24, 10, -1, 9, 25,
  11, 8, -1, 7] ++ List.replicate 37 (-1)

/-- The array has 64 entries and 63 initialisers. -/
def physToGpioR2 : List Int := [
  -1, -1, -1, 2, -1, 3, -1, 4, 14, -1, 15, 17, 18, 27, -1, 22, 23, -1, 24, 10, -1, 9, 25,
  11, 8, -1, 7, 0, 1, 5, -1, 6, 12, 13, -1, 19, 16, 26, 20, -1, 21] ++
  List.replicate 10 (-1) ++ [28, 29, 30, 31] ++ List.replicate 8 (-1) ++ [0]

def gpioToGPFSEL : List Nat :=
  List.replicate 10 0 ++ List.replicate 10 1 ++ List.replicate 10 2 ++ List.replicate 10 3 ++
  List.replicate 10 4 ++ List.replicate 10 5

def gpioToShift : List Nat :=
  let port := [0, 3, 6, 9, 12, 15, 18, 21, 24, 27]
  port ++ port ++ port ++ port ++ port ++ port

def gpioToGPSET : List Nat := List.replicate 32 7 ++ List.replicate 32 8
def gpioToGPCLR : List Nat := List.replicate 32 10 ++ List.replicate 32 11
def gpioToGPLEV : List Nat := List.replicate 32 13 ++ List.replicate 32 14
def gpioToPUDCLK : List Nat := List.replicate 32 38 ++ List.replicate 32 39

/-- `FSEL_OUTP`, `FSEL_ALT0` and `FSEL_ALT5` -/
def fselOutp : BitVec 32 := 1
def fselAlt0 : BitVec 32 := 4
def fselAlt5 : BitVec 32 := 2

def gpioToPwmALT : List (BitVec 32) :=
  List.replicate 12 0 ++ [fselAlt0, fselAlt0] ++ List.replicate 4 0 ++ [fselAlt5, fselAlt5] ++
  List.replicate 20 0 ++ [fselAlt0, fselAlt0, 0, 0, 0, fselAlt0] ++ List.replicate 18 0

def gpioToGpClkALT0 : List (BitVec 32) :=
  List.replicate 4 0 ++ [fselAlt0, fselAlt0, fselAlt0] ++ List.replicate 13 0 ++ [fselAlt5, fselAlt5] ++
  List.replicate 10 0 ++ [fselAlt0, 0, fselAlt0] ++ List.replicate 7 0 ++
  [fselAlt0, fselAlt0, fselAlt0] ++ List.replicate 19 0

/-- `-1` in an array of bytes is 255. -/
def gpioToClkCon : List Nat :=
  List.replicate 4 255 ++ [28, 30, 32] ++ List.replicate 13 255 ++ [28, 30] ++ List.replicate 10 255 ++
  [28, 255, 28] ++ List.replicate 7 255 ++ [28, 30, 28] ++ List.replicate 19 255

def gpioToClkDiv : List Nat :=
  List.replicate 4 255 ++ [29, 31, 33] ++ List.replicate 13 255 ++ [29, 31] ++ List.replicate 10 255 ++
  [29, 255, 29] ++ List.replicate 7 255 ++ [29, 31, 29] ++ List.replicate 19 255

/-! ## The processor's registers -/

/-- What lies behind `gpio`: the function words, the latches of the outputs, the
resistors, `GPPUD`, and what comes in from outside. -/
structure Gpio where
  fsel : Nat → BitVec 32
  latch : Nat → Bool
  pull : Nat → BitVec 32
  gppud : BitVec 32
  outside : Nat → Bool

/-- The function of a pin, one of ten in a word. -/
def Gpio.function (g : Gpio) (pin : Nat) : BitVec 32 := field (g.fsel (pin / 10)) (3 * (pin % 10)) 3

def Gpio.level (g : Gpio) (pin : Nat) : Bool :=
  if g.function pin = fselOutp then g.latch pin else g.outside pin

/-- `*(gpio + offset)` -/
def Gpio.read (g : Gpio) (offset : Nat) : BitVec 32 :=
  if offset < 6 then g.fsel offset else gather (fun i => g.level (32 * (offset - 13) + i)) 32

/-- Whether the pin's bit is set in a word that is written `32` pins a word from `base` on. -/
def hits (base offset : Nat) (word : BitVec 32) (pin : Nat) : Bool :=
  decide (offset = base + pin / 32) && decide (pin < 64) && word.getLsbD (pin % 32)

/-- `*(gpio + offset) = word`: 7 and 8 set, 10 and 11 clear, 38 and 39 clock the
resistors that `GPPUD` asks for. -/
def Gpio.write (g : Gpio) (offset : Nat) (word : BitVec 32) : Gpio :=
  if offset < 6 then { g with fsel := Function.update g.fsel offset word }
  else if offset = 37 then { g with gppud := word }
  else { g with
    latch := fun pin => if hits 7 offset word pin then true
      else if hits 10 offset word pin then false else g.latch pin
    pull := fun pin => if hits 38 offset word pin then g.gppud else g.pull pin }

/-- A write to the value file, which the kernel refuses for an input. -/
def Gpio.sysWrite (g : Gpio) (pin : Nat) (on : Bool) : Gpio :=
  if g.function pin = fselOutp then { g with latch := Function.update g.latch pin on } else g

/-! ## Modes -/

/-- `wiringPiMode` after one of the set-ups -/
inductive Mode where
  | pins
  | gpio
  | gpioSys
  | phys
  deriving DecidableEq, Repr

/-- Which tables the set-up chose for the layout of the board -/
inductive Layout where
  | r1
  | r2
  deriving DecidableEq, Repr

def Layout.pinToGpio : Layout → List Int
  | .r1 => pinToGpioR1
  | .r2 => pinToGpioR2

def Layout.physToGpio : Layout → List Int
  | .r1 => physToGpioR1
  | .r2 => physToGpioR2

/-- What the set-up leaves; `sysFds` says whose value files are open. -/
structure Setup where
  wiringPiMode : Mode
  layout : Layout
  sysFds : Nat → Bool

/-- What lies behind `pwm` and `clk` are words that keep what is written. -/
structure Board extends Setup where
  gpio : Gpio
  pwm : Nat → BitVec 32
  clk : Nat → BitVec 32

/-- The number in the processor, as the mode has it. -/
def Setup.translate (s : Setup) (pin : Int) : Option Int :=
  match s.wiringPiMode with
  | .pins => entry s.layout.pinToGpio pin
  | .phys => entry s.layout.physToGpio pin
  | .gpio | .gpioSys => some pin

def Board.withGpio (b : Board) (gpio : Gpio) : Board := { b with gpio }

/-- `(*(gpio + fSel) & ~(7 << shift)) | (alt << shift)` goes to `*(gpio + fSel)`. -/
def setFunction (pin : Int) (alt : BitVec 32) (g : Gpio) : Option Gpio := do
  let fSel ← entry gpioToGPFSEL pin
  let shift ← entry gpioToShift pin
  some (g.write fSel (setField (g.read fSel) shift 3 alt))

/-! ## PWM and clocks

The waits for a clock that was stopped are left out. -/

def bcmPassword : BitVec 32 := 0x5A000000

/-- `PWM_CONTROL`, `PWM0_RANGE` and `PWM1_RANGE` behind `pwm` -/
def pwmControl : Nat := 0
def pwm0Range : Nat := 4
def pwm1Range : Nat := 8

/-- `PWMCLK_CNTL` and `PWMCLK_DIV` behind `clk` -/
def pwmclkCntl : Nat := 40
def pwmclkDiv : Nat := 41

/-- `*(pwm + offset) = word` and `*(clk + offset) = word` -/
def Board.writePwm (b : Board) (offset : Nat) (word : BitVec 32) : Board :=
  { b with pwm := Function.update b.pwm offset word }
def Board.writeClk (b : Board) (offset : Nat) (word : BitVec 32) : Board :=
  { b with clk := Function.update b.clk offset word }

def pwmModeMs : Int := 0
def pwmModeBal : Int := 1

def pwmSetMode (mode : Int) (b : Board) : Board :=
  if b.wiringPiMode = .gpioSys then b
  else if mode = pwmModeMs then b.writePwm pwmControl 0x8181
  else b.writePwm pwmControl 0x0101

def pwmSetRange (range : BitVec 32) (b : Board) : Board :=
  if b.wiringPiMode = .gpioSys then b else (b.writePwm pwm0Range range).writePwm pwm1Range range

def pwmSetClock (divisor : BitVec 32) (b : Board) : Board :=
  if b.wiringPiMode = .gpioSys then b
  else
    let control := b.pwm pwmControl
    let stopped := (b.writePwm pwmControl 0).writeClk pwmclkCntl (bcmPassword ||| 0x01)
    ((stopped.writeClk pwmclkDiv (bcmPassword ||| (divisor &&& 4095) <<< 12)).writeClk pwmclkCntl
      (bcmPassword ||| 0x11)).writePwm pwmControl control

/-- The divider's whole part has twelve bits. -/
def clockDivider (freq : Nat) : BitVec 32 :=
  let divi := min (19200000 / freq) 4095
  let divf := 19200000 % freq * 4096 / 19200000
  BitVec.ofNat 32 divi <<< 12 ||| BitVec.ofNat 32 divf

def startClock (pin : Int) (freq : Nat) (b : Board) : Option Board := do
  let con ← entry gpioToClkCon pin
  let div ← entry gpioToClkDiv pin
  some (((b.writeClk con (bcmPassword ||| 1)).writeClk div (bcmPassword ||| clockDivider freq)).writeClk con
    (bcmPassword ||| 0x10 ||| 1))

/-- The pin is a number as the mode has it, which is translated here again. -/
def gpioClockSet (pin : Int) (freq : Nat) (b : Board) : Option Board :=
  if b.wiringPiMode = .gpioSys then some b
  else do
    let pin ← b.translate (pin % 64)
    startClock pin freq b

/-! ## The functions -/

def pinModeAlt (pin : Int) (mode : BitVec 32) (b : Board) : Option Board :=
  if onBoard pin then
    if b.wiringPiMode = .gpioSys then some b
    else do
      let pin ← b.translate pin
      (setFunction pin mode b.gpio).map b.withGpio
  else some b

/-- The modes of `pinMode` that start no thread -/
inductive PinMode where
  | input
  | output
  | pwmOutput
  | gpioClock
  | pwmToneOutput
  deriving DecidableEq, Repr

/-- The pin has its number in the processor. -/
def pwmOutput (pin : Int) (b : Board) : Option Board := do
  let alt ← entry gpioToPwmALT pin
  -- Not a hardware capable PWM pin
  if alt = 0 then some b
  else
    let g ← setFunction pin alt b.gpio
    some (pwmSetClock 32 (pwmSetRange 1024 (pwmSetMode pwmModeBal (b.withGpio g))))

def gpioClock (pin : Int) (b : Board) : Option Board := do
  let alt ← entry gpioToGpClkALT0 pin
  -- Not a GPIO_CLOCK pin
  if alt = 0 then some b
  else
    let g ← setFunction pin alt b.gpio
    gpioClockSet pin 100000 (b.withGpio g)

def pinMode (pin : Int) (mode : PinMode) (b : Board) : Option Board :=
  if onBoard pin then
    if b.wiringPiMode = .gpioSys then some b
    else do
      let pin ← b.translate pin
      let _ ← entry gpioToGPFSEL pin
      match mode with
      | .input => (setFunction pin 0 b.gpio).map b.withGpio
      | .output => (setFunction pin fselOutp b.gpio).map b.withGpio
      | .pwmOutput => pwmOutput pin b
      | .pwmToneOutput => (pwmOutput pin b).map (pwmSetMode pwmModeMs)
      | .gpioClock => gpioClock pin b
  else some b

def getAlt (pin : Int) (b : Board) : Option (BitVec 32) :=
  if b.wiringPiMode = .gpioSys then some 0
  else do
    let pin ← b.translate (pin % 64)
    let fSel ← entry gpioToGPFSEL pin
    let shift ← entry gpioToShift pin
    some (field (b.gpio.read fSel) shift 3)

def pullUpDnControl (pin : Int) (pud : BitVec 32) (b : Board) : Option Board :=
  if onBoard pin then
    if b.wiringPiMode = .gpioSys then some b
    else do
      let pin ← b.translate pin
      let clk ← entry gpioToPUDCLK pin
      let g := (b.gpio.write 37 (pud &&& 3)).write clk (1#32 <<< (pin.toNat &&& 31))
      some (b.withGpio ((g.write 37 0).write clk 0))
  else some b

/-- A value of `LOW` clears, any other sets. -/
def digitalWrite (pin : Int) (value : BitVec 32) (b : Board) : Option Board :=
  if onBoard pin then
    if b.wiringPiMode = .gpioSys then
      if b.sysFds pin.toNat then some (b.withGpio (b.gpio.sysWrite pin.toNat (decide (value ≠ 0)))) else some b
    else do
      let pin ← b.translate pin
      let word ← entry (if value = 0 then gpioToGPCLR else gpioToGPSET) pin
      some (b.withGpio (b.gpio.write word (1#32 <<< (pin.toNat &&& 31))))
  else some b

def digitalRead (pin : Int) (b : Board) : Option Bool :=
  if onBoard pin then
    if b.wiringPiMode = .gpioSys then some (b.sysFds pin.toNat && b.gpio.level pin.toNat)
    else do
      let pin ← b.translate pin
      let word ← entry gpioToGPLEV pin
      some (decide (b.gpio.read word &&& 1#32 <<< (pin.toNat &&& 31) ≠ 0))
  else some false

/-! ## Bytes -/

/-- `pinClr` and `pinSet` over the first `n` pins. -/
def byteMasks (pinToGpio : List Int) (value : BitVec 32) : Nat → Option (BitVec 32 × BitVec 32)
  | 0 => some (0, 0)
  | n + 1 => do
    let (pinClr, pinSet) ← byteMasks pinToGpio value n
    let pin ← entry pinToGpio n
    if value &&& 1#32 <<< n = 0 then some (pinClr ||| 1#32 <<< pin.toNat, pinSet)
    else some (pinClr, pinSet ||| 1#32 <<< pin.toNat)

/-- `digitalWrite` of the first `n` bits, to the pins that `pinOf` names. -/
def writeBits (pinOf : Nat → Option Int) (value : BitVec 32) : Nat → Board → Option Board
  | 0, b => some b
  | n + 1, b => do
    let b ← writeBits pinOf value n b
    digitalWrite (← pinOf n) (value &&& 1#32 <<< n) b

/-- `data = (data << 1) | x` over the first `n` pins. -/
def shiftBits (x : Nat → Option Bool) : Nat → Option (BitVec 32)
  | 0 => some 0
  | n + 1 => do
    let data ← shiftBits x n
    some (data <<< 1 ||| if ← x n then 1 else 0)

/-- The pins are `pinToGpio [0]` to `[7]`. -/
def digitalWriteByte (value : BitVec 32) (b : Board) : Option Board :=
  if b.wiringPiMode = .gpioSys then writeBits (fun n => entry b.layout.pinToGpio n) value 8 b
  else do
    let (pinClr, pinSet) ← byteMasks b.layout.pinToGpio value 8
    some (b.withGpio ((b.gpio.write 10 pinClr).write 7 pinSet))

def digitalReadByte (b : Board) : Option (BitVec 32) :=
  if b.wiringPiMode = .gpioSys then
    shiftBits (fun n => do digitalRead (← entry b.layout.pinToGpio n) b) 8
  else
    shiftBits (fun n => do
      let x ← entry b.layout.pinToGpio n
      some (decide (b.gpio.read 13 &&& 1#32 <<< x.toNat ≠ 0))) 8

/-- The pins are 20 to 27. -/
def digitalWriteByte2 (value : BitVec 32) (b : Board) : Option Board :=
  if b.wiringPiMode = .gpioSys then writeBits (fun n => some (20 + n : Nat)) value 8 b
  else some (b.withGpio ((b.gpio.write 10 ((~~~value &&& 0xFF) <<< 20)).write 7 ((value &&& 0xFF) <<< 20)))

def digitalReadByte2 (b : Board) : Option (BitVec 32) :=
  if b.wiringPiMode = .gpioSys then shiftBits (fun n => digitalRead (20 + n : Nat) b) 8
  else some (b.gpio.read 13 >>> 20 &&& 0xFF)

end SmartPrince.Wiring.OnBoard

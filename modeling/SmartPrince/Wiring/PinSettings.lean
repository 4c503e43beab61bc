import SmartPrince.Wiring.OnBoard

/-! # Pins that are kept one by one

A board with a setting of its own for each pin, and what each function of
`wiringPi.c` does to it. A pin has up to three numbers, and a number may name
no pin: the program then looks up what lies beside its tables. -/
namespace SmartPrince.Wiring.PinSettings
open SmartPrince.Wiring.Nodes SmartPrince.Wiring.OnBoard

/-- What is set for each pin -/
structure Pins where
  mode : Nat → BitVec 32
  level : Nat → Bool
  pull : Nat → BitVec 32

theorem Pins.ext {a b : Pins} (hmode : ∀ p, a.mode p = b.mode p) (hlevel : ∀ p, a.level p = b.level p)
    (hpull : ∀ p, a.pull p = b.pull p) : a = b := by
  cases a
  cases b
  rw [mk.injEq]
  exact ⟨funext hmode, funext hlevel, funext hpull⟩

def pinsOf (g : Gpio) : Pins := ⟨g.function, g.latch, g.pull⟩

/-! ## What is asked of them -/

/-- A pin number of the board, as one of the processor -/
def numberOf (s : Setup) (pin : Int) : Option Nat :=
  if onBoard pin then (s.translate pin).bind fun n => if 0 ≤ n then some n.toNat else none else none

/-- Whether the pin's number is looked up beside no table of `limit` entries. -/
def inTables (s : Setup) (limit : Nat) (pin : Int) : Bool :=
  decide (s.wiringPiMode = .gpioSys) || !onBoard pin || (numberOf s pin).any (· < limit)

/-- Whether the pin's number, where one is looked up, is one that `ok` takes. -/
def takes (s : Setup) (ok : Nat → Bool) (pin : Int) : Bool :=
  decide (s.wiringPiMode = .gpioSys) || (numberOf s pin).all ok

/-- The function that a mode needs on the pin -/
def altOf (mode : PinMode) (n : Nat) : Option (BitVec 32) :=
  match mode with
  | .input => some 0
  | .output => some fselOutp
  | .pwmOutput | .pwmToneOutput => entry gpioToPwmALT n
  | .gpioClock => entry gpioToGpClkALT0 n

/-- A mode that the pin has -/
def wanted (mode : PinMode) (n : Nat) : Option (BitVec 32) :=
  (altOf mode n).filter fun alt => !decide (alt = 0 ∧ mode ≠ .input)

/-- Whether the second translation, of the number that is one in the processor already,
looks up nothing beside a table: a pin with a clock is translated twice for that mode. -/
def clockInTables (s : Setup) (mode : PinMode) (n : Nat) : Bool :=
  decide (mode ≠ .gpioClock) || (wanted mode n).isNone || inTables s 64 n

/-- What the program asks of the pins -/
inductive Op where
  | pinModeAlt (pin : Int) (mode : BitVec 32)
  | pinMode (pin : Int) (mode : PinMode)
  | pullUpDnControl (pin : Int) (pud : BitVec 32)
  | digitalWrite (pin : Int) (value : BitVec 32)
  | digitalWriteByte (value : BitVec 32)
  | digitalWriteByte2 (value : BitVec 32)

def Op.run : Op → Board → Option Board
  | .pinModeAlt pin mode => OnBoard.pinModeAlt pin mode
  | .pinMode pin mode => OnBoard.pinMode pin mode
  | .pullUpDnControl pin pud => OnBoard.pullUpDnControl pin pud
  | .digitalWrite pin value => OnBoard.digitalWrite pin value
  | .digitalWriteByte value => OnBoard.digitalWriteByte value
  | .digitalWriteByte2 value => OnBoard.digitalWriteByte2 value

def Op.within (s : Setup) : Op → Bool
  | .pinModeAlt pin _ => inTables s 60 pin
  | .pinMode pin mode => inTables s 60 pin && takes s (clockInTables s mode) pin
  | .pullUpDnControl pin _ | .digitalWrite pin _ => inTables s 64 pin
  | .digitalWriteByte _ | .digitalWriteByte2 _ => true

section Spec
variable (s : Setup) (l : Pins)

def Pins.setMode (n : Nat) (mode : BitVec 32) : Pins := { l with mode := Function.update l.mode n mode }
def Pins.setLevel (n : Nat) (on : Bool) : Pins := { l with level := Function.update l.level n on }
def Pins.setPull (n : Nat) (pud : BitVec 32) : Pins := { l with pull := Function.update l.pull n pud }

/-- Whether a write comes through to the level of a pin. -/
def Pins.driven (n : Nat) : Bool :=
  decide (s.wiringPiMode ≠ .gpioSys) || s.sysFds n && decide (l.mode n = fselOutp)

/-- A level that is written to a pin by name -/
def Pins.drive (pin : Int) (on : Bool) : Pins :=
  (numberOf s pin).elim l fun n => if l.driven s n then l.setLevel n on else l

/-- The one of the first `n` bits that is for the pin, where their pins are `lines`. -/
def bitFor (lines : Nat → Nat) (value : BitVec 32) (n p : Nat) : Option Bool :=
  ((List.range n).find? fun k => lines k = p).map value.getLsbD

def Pins.setBits (lines : Nat → Nat) (value : BitVec 32) (n : Nat) : Pins := { l with
  level := fun p => if l.driven s p then (bitFor lines value n p).getD (l.level p) else l.level p }

/-- What becomes of the pin that is named, where one is. -/
def Pins.atPin (pin : Int) (f : Nat → Pins) : Pins :=
  if s.wiringPiMode = .gpioSys then l else (numberOf s pin).elim l f

def bytePin (layout : Layout) (k : Nat) : Nat := (layout.pinToGpio.getD k 0).toNat

/-- What an operation does to pins that are kept one by one. -/
def Pins.step (l : Pins) : Op → Pins
  | .pinModeAlt pin mode => l.atPin s pin fun n => l.setMode n (mode &&& 7)
  | .pinMode pin mode => l.atPin s pin fun n => (wanted mode n).elim l fun alt => l.setMode n (alt &&& 7)
  | .pullUpDnControl pin pud => l.atPin s pin fun n => l.setPull n (pud &&& 3)
  | .digitalWrite pin value => l.drive s pin (decide (value ≠ 0))
  | .digitalWriteByte value => l.setBits s (bytePin s.layout) value 8
  | .digitalWriteByte2 value => l.setBits s (20 + ·) value 8

end Spec

/-! ## Runs -/

def runAll (ops : List Op) (b : Board) : Option Board := ops.foldlM (fun b op => op.run b) b

/-- The pins after a run, kept one by one -/
def Pins.runAll (s : Setup) (ops : List Op) (l : Pins) : Pins := ops.foldl (Pins.step s) l

end SmartPrince.Wiring.PinSettings

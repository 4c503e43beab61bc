import SmartPrince.Lib.Register
import SmartPrince.Wiring.Nodes

/-! # The port expanders

`mcp23008.c`, `mcp23016.c`, `mcp23017.c`, `mcp23s08.c`, `mcp23s17.c` and
`pcf8574.c` are written alike: a register is read, one bit of it changed, and
the register written; the outputs are written from the copy of them that the
node keeps. The buses with the chips on them are a parameter. -/
namespace SmartPrince.Wiring.Expanders
open SmartPrince.Lib.Register SmartPrince.Wiring.Nodes

/-! ## Registers and constants -/

/-- `OUTPUT`, `LOW` and `PUD_UP` of `wiringPi.h` -/
def output : Int := 1
def low : Int := 0
def pudUp : Int := 2

def mcp23x08Iodir : BitVec 8 := 0x00
def mcp23x08Iocon : BitVec 8 := 0x05
def mcp23x08Gppu : BitVec 8 := 0x06
def mcp23x08Gpio : BitVec 8 := 0x09
def mcp23x08Olat : BitVec 8 := 0x0A

def mcp23x17Iodira : BitVec 8 := 0x00
def mcp23x17Iodirb : BitVec 8 := 0x01
def mcp23x17Iocon : BitVec 8 := 0x0A
def mcp23x17Ioconb : BitVec 8 := 0x0B
def mcp23x17Gppua : BitVec 8 := 0x0C
def mcp23x17Gppub : BitVec 8 := 0x0D
def mcp23x17Gpioa : BitVec 8 := 0x12
def mcp23x17Gpiob : BitVec 8 := 0x13
def mcp23x17Olata : BitVec 8 := 0x14
def mcp23x17Olatb : BitVec 8 := 0x15

/-- `IOCON_INIT` and `IOCON_HAEN` of `mcp23x0817.h` -/
def ioconInit : BitVec 8 := 0x20
def ioconHaen : BitVec 8 := 0x08

def mcp23016Gp0 : BitVec 8 := 0x00
def mcp23016Gp1 : BitVec 8 := 0x01
def mcp23016Olat0 : BitVec 8 := 0x02
def mcp23016Olat1 : BitVec 8 := 0x03
def mcp23016Iodir0 : BitVec 8 := 0x06
def mcp23016Iodir1 : BitVec 8 := 0x07
def mcp23016Iocon0 : BitVec 8 := 0x0A
def mcp23016Iocon1 : BitVec 8 := 0x0B

/-- `IOCON_INIT` of `mcp23016reg.h` -/
def mcp23016IoconInit : BitVec 8 := 0

/-! ## The buses -/

/-- What a transfer is addressed to. A descriptor that `wiringPiI2CSetup` opened
is the address it was opened for. -/
inductive Line where
  | i2c (fd : Int)
  | spi (spiPort devId : BitVec 8)
  deriving DecidableEq, Repr

/-- `wiringPiI2CReadReg8`, `wiringPiI2CWriteReg8`, `wiringPiI2CRead` and
`wiringPiI2CWrite`, and `readByte` and `writeByte` over SPI. -/
structure Bus (β : Type) where
  readReg : β → Line → BitVec 8 → BitVec 32 × β
  writeReg : β → Line → BitVec 8 → BitVec 8 → β
  read : β → Line → BitVec 32 × β
  write : β → Line → BitVec 8 → β

/-- `CMD_WRITE | ((devId & 7) << 1)` on the port `channel &= 1` -/
def spiLine (spiPort devId : BitVec 32) : Line :=
  .spi (spiPort.setWidth 8 &&& 1) (devId.setWidth 8 &&& 7)

/-- The line that the functions of a node use. -/
def Node.line (node : Node) : Line :=
  match node.driver with
  | .mcp23s08 | .mcp23s17 => spiLine node.data0 node.data1
  | _ => .i2c node.fd

variable {β : Type} (B : Bus β)

/-! ## What the files share -/

/-- The index of a pin in its node. -/
def index (node : Node) (pin : Int) : Nat := (pin - node.pinBase).toNat

/-- A register is read, the bit is changed, and the register is written. -/
def modifyReg (reg : BitVec 8) (bit : Nat) (on : Bool) (node : Node) (bus : β) : β :=
  let (old, bus) := B.readReg bus (Node.line node) reg
  B.writeReg bus (Node.line node) reg ((withBit old bit on).setWidth 8)

/-- Of 8 pins: `mask = 1 << (pin - node->pinBase)`. -/
def modify8 (reg : BitVec 8) (on : Bool) (node : Node) (pin : Int) (bus : β) : β :=
  modifyReg B reg (index node pin) on node bus

/-- Of 16 pins: bank A or bank B. -/
def modify16 (regA regB : BitVec 8) (on : Bool) (node : Node) (pin : Int) (bus : β) : β :=
  if index node pin < 8 then modifyReg B regA (index node pin) on node bus
  else modifyReg B regB (index node pin % 8) on node bus

/-- The outputs are written from `data2`. -/
def write8 (reg : BitVec 8) (on : Bool) (node : Node) (pin : Int) (bus : β) : Node × β :=
  let old := withBit node.data2 (index node pin % 8) on
  ({ node with data2 := old }, B.writeReg bus (Node.line node) reg (old.setWidth 8))

/-- The outputs of bank A are written from `data2`, those of bank B from `data3`. -/
def write16 (regA regB : BitVec 8) (on : Bool) (node : Node) (pin : Int) (bus : β) : Node × β :=
  if index node pin < 8 then
    let old := withBit node.data2 (index node pin % 8) on
    ({ node with data2 := old }, B.writeReg bus (Node.line node) regA (old.setWidth 8))
  else
    let old := withBit node.data3 (index node pin % 8) on
    ({ node with data3 := old }, B.writeReg bus (Node.line node) regB (old.setWidth 8))

/-- `(value & mask) == 0` gives `LOW`. -/
def readBit (reg : BitVec 8) (bit : Nat) (node : Node) (bus : β) : Bool × β :=
  let (value, bus) := B.readReg bus (Node.line node) reg
  (value.getLsbD bit, bus)

def read8 (reg : BitVec 8) (node : Node) (pin : Int) (bus : β) : Bool × β :=
  readBit B reg (index node pin % 8) node bus

def read16 (regA regB : BitVec 8) (node : Node) (pin : Int) (bus : β) : Bool × β :=
  if index node pin < 8 then readBit B regA (index node pin) node bus
  else readBit B regB (index node pin % 8) node bus

/-! ## The functions of the files -/

namespace Mcp23008

def myPinMode (node : Node) (pin mode : Int) (bus : β) : Node × β :=
  (node, modify8 B mcp23x08Iodir (decide (mode ≠ output)) node pin bus)

def myPullUpDnControl (node : Node) (pin mode : Int) (bus : β) : Node × β :=
  (node, modify8 B mcp23x08Gppu (decide (mode = pudUp)) node pin bus)

def myDigitalWrite (node : Node) (pin value : Int) (bus : β) : Node × β :=
  write8 B mcp23x08Gpio (decide (value ≠ low)) node pin bus

def myDigitalRead (node : Node) (pin : Int) (bus : β) : Bool × β := read8 B mcp23x08Gpio node pin bus

end Mcp23008

namespace Mcp23s08

def myPinMode (node : Node) (pin mode : Int) (bus : β) : Node × β :=
  (node, modify8 B mcp23x08Iodir (decide (mode ≠ output)) node pin bus)

def myPullUpDnControl (node : Node) (pin mode : Int) (bus : β) : Node × β :=
  (node, modify8 B mcp23x08Gppu (decide (mode = pudUp)) node pin bus)

def myDigitalWrite (node : Node) (pin value : Int) (bus : β) : Node × β :=
  write8 B mcp23x08Gpio (decide (value ≠ low)) node pin bus

def myDigitalRead (node : Node) (pin : Int) (bus : β) : Bool × β := read8 B mcp23x08Gpio node pin bus

end Mcp23s08

namespace Mcp23017

def myPinMode (node : Node) (pin mode : Int) (bus : β) : Node × β :=
  (node, modify16 B mcp23x17Iodira mcp23x17Iodirb (decide (mode ≠ output)) node pin bus)

def myPullUpDnControl (node : Node) (pin mode : Int) (bus : β) : Node × β :=
  (node, modify16 B mcp23x17Gppua mcp23x17Gppub (decide (mode = pudUp)) node pin bus)

def myDigitalWrite (node : Node) (pin value : Int) (bus : β) : Node × β :=
  write16 B mcp23x17Gpioa mcp23x17Gpiob (decide (value ≠ low)) node pin bus

def myDigitalRead (node : Node) (pin : Int) (bus : β) : Bool × β :=
  read16 B mcp23x17Gpioa mcp23x17Gpiob node pin bus

end Mcp23017

namespace Mcp23s17

def myPinMode (node : Node) (pin mode : Int) (bus : β) : Node × β :=
  (node, modify16 B mcp23x17Iodira mcp23x17Iodirb (decide (mode ≠ output)) node pin bus)

def myPullUpDnControl (node : Node) (pin mode : Int) (bus : β) : Node × β :=
  (node, modify16 B mcp23x17Gppua mcp23x17Gppub (decide (mode = pudUp)) node pin bus)

def myDigitalWrite (node : Node) (pin value : Int) (bus : β) : Node × β :=
  write16 B mcp23x17Gpioa mcp23x17Gpiob (decide (value ≠ low)) node pin bus

def myDigitalRead (node : Node) (pin : Int) (bus : β) : Bool × β :=
  read16 B mcp23x17Gpioa mcp23x17Gpiob node pin bus

end Mcp23s17

namespace Mcp23016

def myPinMode (node : Node) (pin mode : Int) (bus : β) : Node × β :=
  (node, modify16 B mcp23016Iodir0 mcp23016Iodir1 (decide (mode ≠ output)) node pin bus)

def myDigitalWrite (node : Node) (pin value : Int) (bus : β) : Node × β :=
  write16 B mcp23016Gp0 mcp23016Gp1 (decide (value ≠ low)) node pin bus

def myDigitalRead (node : Node) (pin : Int) (bus : β) : Bool × β :=
  read16 B mcp23016Gp0 mcp23016Gp1 node pin bus

end Mcp23016

namespace Pcf8574

/-- The chip has no registers: its one port is written. -/
def writePort (on : Bool) (node : Node) (pin : Int) (bus : β) : Node × β :=
  let old := withBit node.data2 (index node pin % 8) on
  ({ node with data2 := old }, B.write bus (Node.line node) (old.setWidth 8))

/-- The pins should be driven high when used as an input pin. -/
def myPinMode (node : Node) (pin mode : Int) (bus : β) : Node × β :=
  writePort B (decide (mode ≠ output)) node pin bus

def myDigitalWrite (node : Node) (pin value : Int) (bus : β) : Node × β :=
  writePort B (decide (value ≠ low)) node pin bus

def myDigitalRead (node : Node) (pin : Int) (bus : β) : Bool × β :=
  let (value, bus) := B.read bus (Node.line node)
  (value.getLsbD (index node pin % 8), bus)

end Pcf8574

/-! ## The functions of a node -/

/-- `node->pinMode` -/
def nodePinMode (node : Node) (pin mode : Int) (bus : β) : Node × β :=
  match node.driver with
  | .dummy => (node, bus)
  | .mcp23008 => Mcp23008.myPinMode B node pin mode bus
  | .mcp23016 => Mcp23016.myPinMode B node pin mode bus
  | .mcp23017 => Mcp23017.myPinMode B node pin mode bus
  | .mcp23s08 => Mcp23s08.myPinMode B node pin mode bus
  | .mcp23s17 => Mcp23s17.myPinMode B node pin mode bus
  | .pcf8574 => Pcf8574.myPinMode B node pin mode bus

/-- `node->pullUpDnControl` -/
def nodePullUpDnControl (node : Node) (pin pud : Int) (bus : β) : Node × β :=
  match node.driver with
  | .dummy | .mcp23016 | .pcf8574 => (node, bus)
  | .mcp23008 => Mcp23008.myPullUpDnControl B node pin pud bus
  | .mcp23017 => Mcp23017.myPullUpDnControl B node pin pud bus
  | .mcp23s08 => Mcp23s08.myPullUpDnControl B node pin pud bus
  | .mcp23s17 => Mcp23s17.myPullUpDnControl B node pin pud bus

/-- `node->digitalWrite` -/
def nodeDigitalWrite (node : Node) (pin value : Int) (bus : β) : Node × β :=
  match node.driver with
  | .dummy => (node, bus)
  | .mcp23008 => Mcp23008.myDigitalWrite B node pin value bus
  | .mcp23016 => Mcp23016.myDigitalWrite B node pin value bus
  | .mcp23017 => Mcp23017.myDigitalWrite B node pin value bus
  | .mcp23s08 => Mcp23s08.myDigitalWrite B node pin value bus
  | .mcp23s17 => Mcp23s17.myDigitalWrite B node pin value bus
  | .pcf8574 => Pcf8574.myDigitalWrite B node pin value bus

/-- `node->digitalRead` -/
def nodeDigitalRead (node : Node) (pin : Int) (bus : β) : Bool × β :=
  match node.driver with
  | .dummy => (false, bus)
  | .mcp23008 => Mcp23008.myDigitalRead B node pin bus
  | .mcp23016 => Mcp23016.myDigitalRead B node pin bus
  | .mcp23017 => Mcp23017.myDigitalRead B node pin bus
  | .mcp23s08 => Mcp23s08.myDigitalRead B node pin bus
  | .mcp23s17 => Mcp23s17.myDigitalRead B node pin bus
  | .pcf8574 => Pcf8574.myDigitalRead B node pin bus

/-! ## The program -/

/-- The global state: the list of the nodes, whether `wiringPiReturnCodes` is set,
and the buses. -/
structure Globals (β : Type) where
  nodes : List Node
  returnCodes : Bool
  bus : β

/-- A pin on the board is not the business of a node. -/
def onNode (pin : Int) (f : Node → β → Node × β) (s : Globals β) : Globals β :=
  if onBoard pin then s
  else
    match wiringPiFindNode s.nodes pin with
    | none => s
    | some node =>
      let (node, bus) := f node s.bus
      { s with nodes := setNode pin node s.nodes, bus }

def pinMode (pin mode : Int) (s : Globals β) : Globals β :=
  onNode pin (fun node => nodePinMode B node pin mode) s

def pullUpDnControl (pin pud : Int) (s : Globals β) : Globals β :=
  onNode pin (fun node => nodePullUpDnControl B node pin pud) s

def digitalWrite (pin value : Int) (s : Globals β) : Globals β :=
  onNode pin (fun node => nodeDigitalWrite B node pin value) s

/-- Off the board; whether the pin is `HIGH`. -/
def digitalRead (pin : Int) (s : Globals β) : Bool × Globals β :=
  match wiringPiFindNode s.nodes pin with
  | none => (false, s)
  | some node =>
    let (value, bus) := nodeDigitalRead B node pin s.bus
    (value, { s with bus })

/-! ## The setup functions -/

/-- The writes that configure a chip. -/
def configure (line : Line) (config : List (BitVec 8 × BitVec 8)) (bus : β) : β :=
  config.foldl (fun bus c => B.writeReg bus line c.1 c.2) bus

/-- A bus that cannot be opened is a failure that is not fatal. -/
def unopened (s : Globals β) : Option (Globals β) := if s.returnCodes then some s else none

section Setup
variable (pinBase : Int) (opened : Bool) (s : Globals β)

/-- A chip of 8 pins with registers, once the bus is open. -/
def setup8 (line : Line) (config : List (BitVec 8 × BitVec 8)) (fill : Node → Node) (olat : BitVec 8) :
    Option (Globals β) :=
  let bus := configure B line config s.bus
  (wiringPiNewNode s.nodes pinBase 8).map fun node =>
    let (data2, bus) := B.readReg bus line olat
    { s with nodes := { fill node with data2 } :: s.nodes, bus }

/-- A chip of 16 pins, once the bus is open. -/
def setup16 (line : Line) (config : List (BitVec 8 × BitVec 8)) (fill : Node → Node)
    (olatA olatB : BitVec 8) : Option (Globals β) :=
  let bus := configure B line config s.bus
  (wiringPiNewNode s.nodes pinBase 16).map fun node =>
    let (data2, bus) := B.readReg bus line olatA
    let (data3, bus) := B.readReg bus line olatB
    { s with nodes := { fill node with data2, data3 } :: s.nodes, bus }

def mcp23008Setup (i2cAddress : Int) : Option (Globals β) :=
  if !opened then unopened s
  else setup8 B pinBase s (.i2c i2cAddress) [(mcp23x08Iocon, ioconInit)]
    (fun node => { node with fd := i2cAddress, driver := .mcp23008 }) mcp23x08Olat

def mcp23017Setup (i2cAddress : Int) : Option (Globals β) :=
  if !opened then unopened s
  else setup16 B pinBase s (.i2c i2cAddress) [(mcp23x17Iocon, ioconInit)]
    (fun node => { node with fd := i2cAddress, driver := .mcp23017 }) mcp23x17Olata mcp23x17Olatb

def mcp23016Setup (i2cAddress : Int) : Option (Globals β) :=
  if !opened then unopened s
  else setup16 B pinBase s (.i2c i2cAddress)
    [(mcp23016Iocon0, mcp23016IoconInit), (mcp23016Iocon1, mcp23016IoconInit)]
    (fun node => { node with fd := i2cAddress, driver := .mcp23016 }) mcp23016Olat0 mcp23016Olat1

def mcp23s08Setup (spiPort devId : BitVec 32) : Option (Globals β) :=
  if !opened then unopened s
  else setup8 B pinBase s (spiLine spiPort devId) [(mcp23x08Iocon, ioconInit)]
    (fun node => { node with data0 := spiPort, data1 := devId, driver := .mcp23s08 }) mcp23x08Olat

def mcp23s17Setup (spiPort devId : BitVec 32) : Option (Globals β) :=
  if !opened then unopened s
  else setup16 B pinBase s (spiLine spiPort devId)
    [(mcp23x17Iocon, ioconInit ||| ioconHaen), (mcp23x17Ioconb, ioconInit ||| ioconHaen)]
    (fun node => { node with data0 := spiPort, data1 := devId, driver := .mcp23s17 })
    mcp23x17Olata mcp23x17Olatb

def pcf8574Setup (i2cAddress : Int) : Option (Globals β) :=
  if !opened then unopened s
  else (wiringPiNewNode s.nodes pinBase 8).map fun node =>
    let (data2, bus) := B.read s.bus (.i2c i2cAddress)
    { s with nodes := { node with fd := i2cAddress, driver := .pcf8574, data2 } :: s.nodes, bus }

/-- The other extensions: nodes that serve no digital output. -/
def otherSetup (numPins fd : Int) : Option (Globals β) :=
  if !opened then unopened s
  else (wiringPiNewNode s.nodes pinBase numPins).map fun node =>
    { s with nodes := { node with fd } :: s.nodes }

end Setup

end SmartPrince.Wiring.Expanders

import SmartPrince.Lib.Run
import SmartPrince.Wiring.Expanders

/-! # The pins of the port expanders, over whole runs

A ledger is kept beside the program: which pin of which chip a pin number
stands for, and what was last asked of each pin. The chips' registers are to
hold that, whatever was asked of other pins and other chips in between. -/
namespace SmartPrince.Wiring.ExpanderSoundness
open SmartPrince.Lib.Register SmartPrince.Lib.Run
open SmartPrince.Wiring.Nodes SmartPrince.Wiring.Expanders

/-! ## The chips -/

/-- What a bit of a chip's registers decides about a pin: whether it is an input,
whether it is pulled up, and the level it is driven to. -/
inductive Role where
  | input
  | pulled
  | latch
  deriving DecidableEq, Repr

/-- The register that holds a role of the pins of bank A or bank B. -/
def register : Driver → Role → (bankB : Bool) → Option (BitVec 8)
  | .mcp23008, .input, false | .mcp23s08, .input, false => some mcp23x08Iodir
  | .mcp23008, .pulled, false | .mcp23s08, .pulled, false => some mcp23x08Gppu
  | .mcp23008, .latch, false | .mcp23s08, .latch, false => some mcp23x08Olat
  | .mcp23017, .input, b | .mcp23s17, .input, b => some (bif b then mcp23x17Iodirb else mcp23x17Iodira)
  | .mcp23017, .pulled, b | .mcp23s17, .pulled, b => some (bif b then mcp23x17Gppub else mcp23x17Gppua)
  | .mcp23017, .latch, b | .mcp23s17, .latch, b => some (bif b then mcp23x17Olatb else mcp23x17Olata)
  | .mcp23016, .input, b => some (bif b then mcp23016Iodir1 else mcp23016Iodir0)
  | .mcp23016, .latch, b => some (bif b then mcp23016Olat1 else mcp23016Olat0)
  | _, _, _ => none

/-- The port register: a write to it goes to the latches, a read gives the levels. -/
def port : Driver → (bankB : Bool) → Option (BitVec 8)
  | .mcp23008, false | .mcp23s08, false => some mcp23x08Gpio
  | .mcp23017, b | .mcp23s17, b => some (bif b then mcp23x17Gpiob else mcp23x17Gpioa)
  | .mcp23016, b => some (bif b then mcp23016Gp1 else mcp23016Gp0)
  | _, _ => none

def configRegisters : Driver → List (BitVec 8)
  | .mcp23008 | .mcp23s08 => [mcp23x08Iocon]
  | .mcp23017 | .mcp23s17 => [mcp23x17Iocon, mcp23x17Ioconb]
  | .mcp23016 => [mcp23016Iocon0, mcp23016Iocon1]
  | _ => []

/-- What the registers of all chips hold. -/
abbrev Content : Type := Line → Role → Bool → BitVec 8

def Content.set (c : Content) (line : Line) (r : Role) (bankB : Bool) (v : BitVec 8) : Content :=
  fun line' r' bankB' => if line' = line ∧ r' = r ∧ bankB' = bankB then v else c line' r' bankB'

variable {β : Type}

/-- The buses reach chips that do what their data sheets say: `chip` is the chip
that a line leads to and `content` what its registers hold. -/
structure Wired (B : Bus β) (chip : Line → Driver) (content : β → Content) : Prop where
  readReg_keeps : ∀ s line reg, content (B.readReg s line reg).2 = content s
  read_keeps : ∀ s line, content (B.read s line).2 = content s
  readReg : ∀ s line r b reg, register (chip line) r b = some reg →
    (B.readReg s line reg).1 = (content s line r b).setWidth 32
  writeReg : ∀ s line r b reg v, r ≠ .latch → register (chip line) r b = some reg →
    content (B.writeReg s line reg v) = (content s).set line r b v
  writePort : ∀ s line b reg v, port (chip line) b = some reg →
    content (B.writeReg s line reg v) = (content s).set line .latch b v
  -- the top bit of the configuration would renumber the registers
  configure : ∀ s line reg v, reg ∈ configRegisters (chip line) → v.getLsbD 7 = false →
    content (B.writeReg s line reg v) = content s
  write : ∀ s line v, chip line = .pcf8574 →
    content (B.write s line v) = (content s).set line .latch false v
  -- a pin that is an output has the level it is driven to
  levels : ∀ s line b reg bit, port (chip line) b = some reg → bit < 8 →
    (content s line .input b).getLsbD bit = false →
      (B.readReg s line reg).1.getLsbD bit = (content s line .latch b).getLsbD bit

/-! ## The ledger -/

/-- The pin of a chip that a pin number stands for. -/
structure Place where
  driver : Driver
  line : Line
  index : Nat
  deriving DecidableEq, Repr

def Place.bankB (p : Place) : Bool := decide (8 ≤ p.index)

def Place.bit (p : Place) : Nat := p.index % 8

/-- The bit that decides a role of the pin. -/
def Content.at (c : Content) (p : Place) (r : Role) : Bool := (c p.line r p.bankB).getLsbD p.bit

structure Ledger where
  place : Int → Option Place
  setting : Int → Role → Option Bool

def blank : Ledger := ⟨fun _ => none, fun _ _ => none⟩

inductive Op where
  | pinMode (mode : Int)
  | pullUpDnControl (pud : Int)
  | digitalWrite (value : Int)

/-- What is asked of a pin. The pins of a PCF8574 have one setting for both. -/
def effect : Driver → Op → Option (Role × Bool)
  | .dummy, _ => none
  | .pcf8574, .pinMode mode => some (.latch, decide (mode ≠ output))
  | .pcf8574, .pullUpDnControl _ => none
  | .mcp23016, .pullUpDnControl _ => none
  | _, .pinMode mode => some (.input, decide (mode ≠ output))
  | _, .pullUpDnControl pud => some (.pulled, decide (pud = pudUp))
  | _, .digitalWrite value => some (.latch, decide (value ≠ low))

def Ledger.put (l : Ledger) (pin : Int) (r : Role) (on : Bool) : Ledger :=
  { l with setting := fun q r' => if q = pin ∧ r' = r then some on else l.setting q r' }

def Ledger.ask (l : Ledger) (op : Op) (pin : Int) : Ledger :=
  match l.place pin with
  | none => l
  | some p =>
    match effect p.driver op with
    | none => l
    | some (r, on) => l.put pin r on

/-- The arguments of a setup function, and whether its bus can be opened. -/
structure Setup where
  driver : Driver
  pinBase : Int
  numPins : Int
  i2cAddress : Int
  spiPort : BitVec 32
  devId : BitVec 32
  opened : Bool

/-- The number of pins; `numPins` is an argument of the other extensions. -/
def Setup.size (u : Setup) : Int :=
  match u.driver with
  | .dummy => u.numPins
  | .mcp23008 | .mcp23s08 | .pcf8574 => 8
  | .mcp23016 | .mcp23017 | .mcp23s17 => 16

/-- The pins of the extension are counted, and their numbers are ints. -/
def Setup.Counted (u : Setup) : Prop := Nodes.Counted u.pinBase u.size

def Setup.line (u : Setup) : Line :=
  match u.driver with
  | .mcp23s08 | .mcp23s17 => spiLine u.spiPort u.devId
  | _ => .i2c u.i2cAddress

def Setup.place (u : Setup) (pin : Int) : Place := ⟨u.driver, u.line, (pin - u.pinBase).toNat⟩

/-- The new pins stand for those of the chip, whose registers are as they were. -/
def Ledger.enter (l : Ledger) (c : Content) (u : Setup) : Ledger where
  place pin := if inRange u.pinBase u.size pin then some (u.place pin) else l.place pin
  setting pin r :=
    if inRange u.pinBase u.size pin then
      (register u.driver r (u.place pin).bankB).map fun _ => c.at (u.place pin) r
    else l.setting pin r

/-! ## Runs -/

variable (B : Bus β)

def Setup.run (u : Setup) (s : Globals β) : Option (Globals β) :=
  match u.driver with
  | .dummy => otherSetup u.pinBase u.opened s u.numPins u.i2cAddress
  | .mcp23008 => mcp23008Setup B u.pinBase u.opened s u.i2cAddress
  | .mcp23016 => mcp23016Setup B u.pinBase u.opened s u.i2cAddress
  | .mcp23017 => mcp23017Setup B u.pinBase u.opened s u.i2cAddress
  | .mcp23s08 => mcp23s08Setup B u.pinBase u.opened s u.spiPort u.devId
  | .mcp23s17 => mcp23s17Setup B u.pinBase u.opened s u.spiPort u.devId
  | .pcf8574 => pcf8574Setup B u.pinBase u.opened s u.i2cAddress

def Op.run (op : Op) (pin : Int) (s : Globals β) : Globals β :=
  match op with
  | .pinMode mode => Expanders.pinMode B pin mode s
  | .pullUpDnControl pud => Expanders.pullUpDnControl B pin pud s
  | .digitalWrite value => Expanders.digitalWrite B pin value s

inductive Event where
  | setup (u : Setup)
  | op (op : Op) (pin : Int)

/-- What is set up has ints for its pins. -/
def Event.Counted : Event → Prop
  | .setup u => u.opened = true → u.Counted
  | .op _ _ => True

structure Watched (β : Type) where
  globals : Globals β
  ledger : Ledger

/-- A call of the program; none where it ends. -/
def watch (content : β → Content) (w : Watched β) : Event → Option (Watched β)
  | .setup u =>
    (u.run B w.globals).map fun s =>
      ⟨s, if u.opened then w.ledger.enter (content w.globals.bus) u else w.ledger⟩
  | .op op pin => some ⟨op.run B pin w.globals, w.ledger.ask op pin⟩

/-- Before the first call. -/
def started (returnCodes : Bool) (bus : β) : Watched β := ⟨⟨[], returnCodes, bus⟩, blank⟩

/-! ## What a call can do -/

/-- `node->pinMode`, `node->pullUpDnControl` or `node->digitalWrite` -/
def nodeOp (op : Op) (node : Node) (pin : Int) (bus : β) : Node × β :=
  match op with
  | .pinMode mode => nodePinMode B node pin mode bus
  | .pullUpDnControl pud => nodePullUpDnControl B node pin pud bus
  | .digitalWrite value => nodeDigitalWrite B node pin value bus

theorem Op.run_onNode (op : Op) (pin : Int) (s : Globals β) :
    op.run B pin s = onNode pin (fun node => nodeOp B op node pin) s := by
  cases op <;> rfl

theorem write16_same (regA regB : BitVec 8) (on : Bool) (node : Node) (pin : Int) (bus : β) :
    SameChip node (write16 B regA regB on node pin bus).1 := by
  unfold write16
  split <;> exact ⟨rfl, rfl, rfl, rfl, rfl, rfl⟩

theorem nodeOp_same (op : Op) (node : Node) (pin : Int) (bus : β) :
    SameChip node (nodeOp B op node pin bus).1 := by
  cases op with
  | pinMode mode =>
    unfold nodeOp nodePinMode
    cases node.driver <;> exact ⟨rfl, rfl, rfl, rfl, rfl, rfl⟩
  | pullUpDnControl pud =>
    unfold nodeOp nodePullUpDnControl
    cases node.driver <;> exact ⟨rfl, rfl, rfl, rfl, rfl, rfl⟩
  | digitalWrite value =>
    unfold nodeOp nodeDigitalWrite
    cases node.driver with
    | mcp23016 | mcp23017 | mcp23s17 => exact write16_same B _ _ _ _ _ _
    | _ => exact ⟨rfl, rfl, rfl, rfl, rfl, rfl⟩

/-- The pin has no node, or its node's function is called. -/
theorem Op.run_cases (op : Op) (pin : Int) (s : Globals β) :
    (op.run B pin s = s ∧ (onBoard pin = true ∨ wiringPiFindNode s.nodes pin = none)) ∨
      ∃ node, wiringPiFindNode s.nodes pin = some node ∧ op.run B pin s =
        { s with
          nodes := setNode pin (nodeOp B op node pin s.bus).1 s.nodes
          bus := (nodeOp B op node pin s.bus).2 } := by
  rw [Op.run_onNode]
  unfold onNode
  cases hboard : onBoard pin with
  | true => exact .inl ⟨rfl, .inl rfl⟩
  | false =>
    cases hfound : wiringPiFindNode s.nodes pin with
    | none => exact .inl ⟨rfl, .inr rfl⟩
    | some node => exact .inr ⟨node, rfl, rfl⟩

/-- The node that a setup function puts in front of the others. -/
structure NewNode (u : Setup) (s : Globals β) (node : Node) : Prop where
  pinBase : node.pinBase = u.pinBase
  pinMax : node.pinMax = u.pinBase + u.size - 1
  driver : node.driver = u.driver
  line : Node.line node = u.line
  least : 64 ≤ u.pinBase
  free : ∀ pin, inRange u.pinBase u.size pin → wiringPiFindNode s.nodes pin = none

/-- A pin of the chip is taken, or is none of the extensions'. -/
def Setup.Taken (u : Setup) (s : Globals β) : Prop :=
  u.pinBase < 64 ∨ ∃ pin, inRange u.pinBase u.size pin ∧ wiringPiFindNode s.nodes pin ≠ none

theorem newNode_of {u : Setup} (hcounted : u.Counted) {s : Globals β} {node new : Node}
    (hnew : wiringPiNewNode s.nodes u.pinBase u.size = some node) (hbase : new.pinBase = node.pinBase)
    (hmax : new.pinMax = node.pinMax) (hdriver : new.driver = u.driver)
    (hline : Node.line new = u.line) : NewNode u s new := by
  obtain ⟨rfl, hleast, hfree⟩ := wiringPiNewNode_some hcounted hnew
  exact ⟨hbase, hmax, hdriver, hline, hleast, hfree⟩

/-- The copy of the outputs of a bank that a node keeps. -/
def shadow (node : Node) (bankB : Bool) : BitVec 8 :=
  (if bankB then node.data3 else node.data2).setWidth 8

/-- The chip's registers are as before, and the node has copies of its latches. -/
structure Copied (B : Bus β) (u : Setup) (bus bus' : β) (node : Node) : Prop where
  idle : u.driver = .dummy → bus' = bus
  chip : ∀ chip content, Wired B chip content → chip u.line = u.driver →
    content bus' = content bus ∧ ∀ b reg, register u.driver .latch b = some reg →
      shadow node b = content bus u.line .latch b

/-- A write to a configuration register that keeps the registers' numbers. -/
def harmless (d : Driver) (c : BitVec 8 × BitVec 8) : Bool :=
  decide (c.1 ∈ configRegisters d) && !c.2.getLsbD 7

theorem configure_keeps {chip : Line → Driver} {content : β → Content} (hw : Wired B chip content)
    {line : Line} {config : List (BitVec 8 × BitVec 8)}
    (h : config.all (harmless (chip line)) = true) (bus : β) :
    content (configure B line config bus) = content bus := by
  unfold configure
  induction config generalizing bus with
  | nil => rfl
  | cons c config ih =>
    rw [List.all_cons, Bool.and_eq_true, harmless, Bool.and_eq_true] at h
    obtain ⟨⟨hreg, hv⟩, hrest⟩ := h
    rw [List.foldl_cons, ih hrest, hw.configure _ _ _ _ (of_decide_eq_true hreg) (by simpa using hv)]

/-- A latch that is read is what the node keeps of it. -/
theorem readReg_latch {chip : Line → Driver} {content : β → Content} (hw : Wired B chip content)
    {line : Line} {b : Bool} {reg : BitVec 8} (hreg : register (chip line) .latch b = some reg)
    (bus : β) : (B.readReg bus line reg).1.setWidth 8 = content bus line .latch b := by
  rw [hw.readReg _ _ _ _ _ hreg, BitVec.setWidth_setWidth_of_le _ (by decide), BitVec.setWidth_eq]

theorem copied8 {u : Setup} {config : List (BitVec 8 × BitVec 8)} {olat : BitVec 8} {node : Node}
    (hdummy : u.driver ≠ .dummy) (hconfig : config.all (harmless u.driver) = true)
    (hreg : register u.driver .latch false = some olat) (hnone : register u.driver .latch true = none)
    (bus : β)
    (hdata : node.data2 = (B.readReg (configure B u.line config bus) u.line olat).1) :
    Copied B u bus (B.readReg (configure B u.line config bus) u.line olat).2 node := by
  refine ⟨fun h => absurd h hdummy, fun chip content hw hchip => ?_⟩
  rw [← hchip] at hconfig hreg hnone ⊢
  have hkeeps := configure_keeps B hw hconfig bus
  refine ⟨by rw [hw.readReg_keeps, hkeeps], fun b reg hb => ?_⟩
  cases b with
  | true =>
    rw [hnone] at hb
    cases hb
  | false =>
    rw [shadow, if_neg Bool.false_ne_true, hdata, readReg_latch B hw hreg, hkeeps]

theorem copied16 {u : Setup} {config : List (BitVec 8 × BitVec 8)} {olatA olatB : BitVec 8}
    {node : Node} {busA : β} (hdummy : u.driver ≠ .dummy)
    (hconfig : config.all (harmless u.driver) = true)
    (hregA : register u.driver .latch false = some olatA)
    (hregB : register u.driver .latch true = some olatB) (bus : β)
    (hbusA : busA = (B.readReg (configure B u.line config bus) u.line olatA).2)
    (hdataA : node.data2 = (B.readReg (configure B u.line config bus) u.line olatA).1)
    (hdataB : node.data3 = (B.readReg busA u.line olatB).1) :
    Copied B u bus (B.readReg busA u.line olatB).2 node := by
  refine ⟨fun h => absurd h hdummy, fun chip content hw hchip => ?_⟩
  rw [← hchip] at hconfig hregA hregB
  have hkeeps := configure_keeps B hw hconfig bus
  have hkeepsA : content busA = content bus := by rw [hbusA, hw.readReg_keeps, hkeeps]
  refine ⟨by rw [hw.readReg_keeps, hkeepsA], fun b reg hb => ?_⟩
  cases b with
  | true => rw [shadow, if_pos rfl, hdataB, readReg_latch B hw hregB, hkeepsA]
  | false => rw [shadow, if_neg Bool.false_ne_true, hdataA, readReg_latch B hw hregA, hkeeps]

/-- With the bus open, the program ends or there is a new node. -/
theorem Setup.run_opened (u : Setup) (hcounted : u.Counted) (hopened : u.opened = true) (s : Globals β) :
    (u.Taken s ∧ u.run B s = none) ∨
      ∃ node bus, u.run B s = some { s with nodes := node :: s.nodes, bus } ∧ NewNode u s node ∧
        Copied B u s.bus bus node := by
  cases hnew : wiringPiNewNode s.nodes u.pinBase u.size with
  | none =>
    refine .inl ⟨(wiringPiNewNode_none hcounted).mp hnew, ?_⟩
    obtain ⟨driver, pinBase, numPins, i2cAddress, spiPort, devId, opened⟩ := u
    obtain rfl : opened = true := hopened
    cases driver <;> (dsimp only [Setup.run, Setup.size] at hnew ⊢; exact congrArg (Option.map _) hnew)
  | some node =>
    refine .inr ?_
    have hof := fun new : Node => @newNode_of _ u hcounted s node new hnew
    obtain ⟨driver, pinBase, numPins, i2cAddress, spiPort, devId, opened⟩ := u
    obtain rfl : opened = true := hopened
    cases driver with
    | dummy =>
      obtain ⟨rfl, -⟩ := wiringPiNewNode_some hcounted hnew
      exact ⟨_, _, congrArg (Option.map _) hnew, hof _ rfl rfl rfl rfl,
        ⟨fun _ => rfl, fun _ _ _ _ => ⟨rfl, fun _ _ h => nomatch h⟩⟩⟩
    | mcp23008 =>
      exact ⟨_, _, congrArg (Option.map _) hnew, hof _ rfl rfl rfl rfl,
        copied8 B (show Driver.mcp23008 ≠ .dummy by decide) rfl rfl rfl s.bus rfl⟩
    | mcp23s08 =>
      exact ⟨_, _, congrArg (Option.map _) hnew, hof _ rfl rfl rfl rfl,
        copied8 B (show Driver.mcp23s08 ≠ .dummy by decide) rfl rfl rfl s.bus rfl⟩
    | mcp23016 =>
      exact ⟨_, _, congrArg (Option.map _) hnew, hof _ rfl rfl rfl rfl,
        copied16 B (show Driver.mcp23016 ≠ .dummy by decide) rfl rfl rfl s.bus rfl rfl rfl⟩
    | mcp23017 =>
      exact ⟨_, _, congrArg (Option.map _) hnew, hof _ rfl rfl rfl rfl,
        copied16 B (show Driver.mcp23017 ≠ .dummy by decide) rfl rfl rfl s.bus rfl rfl rfl⟩
    | mcp23s17 =>
      exact ⟨_, _, congrArg (Option.map _) hnew, hof _ rfl rfl rfl rfl,
        copied16 B (show Driver.mcp23s17 ≠ .dummy by decide) rfl rfl rfl s.bus rfl rfl rfl⟩
    | pcf8574 =>
      exact ⟨_, _, congrArg (Option.map _) hnew, hof _ rfl rfl rfl rfl,
        ⟨nofun, fun _ _ hw _ => ⟨hw.read_keeps _ _, fun _ _ h => nomatch h⟩⟩⟩

theorem Setup.run_unopened (u : Setup) (hopened : u.opened = false) (s : Globals β) :
    u.run B s = if s.returnCodes then some s else none := by
  obtain ⟨driver, pinBase, numPins, i2cAddress, spiPort, devId, opened⟩ := u
  obtain rfl : opened = false := hopened
  cases driver <;> rfl

/-! ## What the pin numbers stand for -/

def nodePlace (pin : Int) (node : Node) : Place := ⟨node.driver, Node.line node, index node pin⟩

theorem nodePlace_same {node new : Node} (h : SameChip node new) (pin : Int) :
    nodePlace pin new = nodePlace pin node := by
  unfold nodePlace Node.line index
  rw [h.pinBase, h.fd, h.data0, h.data1, h.driver]

/-- The search through the nodes gives what the ledger says. -/
structure Placed (w : Watched β) : Prop where
  apart : w.globals.nodes.Pairwise Node.Apart
  place : ∀ pin, w.ledger.place pin = (wiringPiFindNode w.globals.nodes pin).map (nodePlace pin)
  least : ∀ node ∈ w.globals.nodes, 64 ≤ node.pinBase

theorem Ledger.ask_place (l : Ledger) (op : Op) (pin : Int) : (l.ask op pin).place = l.place := by
  unfold Ledger.ask
  cases l.place pin with
  | none => rfl
  | some p =>
    dsimp only
    cases effect p.driver op <;> rfl

theorem placed_started (returnCodes : Bool) (bus : β) : Placed (started returnCodes bus) :=
  ⟨List.Pairwise.nil, fun _ => rfl, fun _ h => nomatch h⟩

section Placed
variable {content : β → Content} {w w' : Watched β}

theorem placed_op (h : Placed w) (op : Op) (pin : Int) :
    Placed ⟨op.run B pin w.globals, w.ledger.ask op pin⟩ := by
  rcases op.run_cases B pin w.globals with ⟨hsame, -⟩ | ⟨node, hfound, hrun⟩
  · exact ⟨by rw [hsame]; exact h.apart, by rw [hsame, w.ledger.ask_place]; exact h.place,
      by rw [hsame]; exact h.least⟩
  · have hchip := nodeOp_same B op node pin w.globals.bus
    rw [hrun]
    refine ⟨pairwise_set h.apart hfound hchip, fun q => ?_, fun n hn => ?_⟩
    · dsimp only
      rw [w.ledger.ask_place, h.place, findNode_set h.apart hfound hchip]
      by_cases hq : node.covers q = true
      · have hnode : wiringPiFindNode w.globals.nodes q = some node :=
          (Lib.Ranges.find_iff h.apart).mpr ⟨(findNode_mem hfound).1, hq⟩
        rw [if_pos hq, hnode, Option.map_some, Option.map_some, nodePlace_same hchip]
      · rw [if_neg hq]
    · rcases mem_setNode hn with rfl | hn
      · rw [hchip.pinBase]
        exact h.least node (findNode_mem hfound).1
      · exact h.least n hn

theorem NewNode.place {u : Setup} {s : Globals β} {node : Node} (h : NewNode u s node) (pin : Int) :
    nodePlace pin node = u.place pin := by
  unfold nodePlace Setup.place index
  rw [h.driver, h.line, h.pinBase]

theorem placed_setup (h : Placed w) {u : Setup} (hcounted : u.opened = true → u.Counted) {s : Globals β}
    (hrun : u.run B w.globals = some s) :
    Placed ⟨s, if u.opened then w.ledger.enter (content w.globals.bus) u else w.ledger⟩ := by
  cases hopened : u.opened with
  | false =>
    rw [u.run_unopened B hopened] at hrun
    split at hrun
    · cases hrun
      exact h
    · cases hrun
  | true =>
    rcases u.run_opened B (hcounted hopened) hopened w.globals with ⟨-, hnone⟩ | ⟨node, bus, hsome, hnew, -⟩
    · rw [hnone] at hrun
      cases hrun
    · rw [hsome] at hrun
      cases hrun
      refine ⟨pairwise_new h.apart hnew.pinBase hnew.pinMax hnew.free, fun pin => ?_, fun n hn => ?_⟩
      · rw [findNode_new hnew.pinBase hnew.pinMax, if_pos rfl]
        dsimp only [Ledger.enter]
        by_cases hin : inRange u.pinBase u.size pin
        · rw [if_pos hin, if_pos hin, Option.map_some, hnew.place]
        · rw [if_neg hin, if_neg hin, h.place]
      · rcases List.mem_cons.mp hn with rfl | hn
        · rw [hnew.pinBase]
          exact hnew.least
        · exact h.least n hn

theorem placed_watch (h : Placed w) {e : Event} (hcounted : e.Counted)
    (hstep : watch B content w e = some w') : Placed w' := by
  cases e with
  | setup u =>
    obtain ⟨s, hrun, rfl⟩ := Option.map_eq_some_iff.mp hstep
    exact placed_setup B h hcounted hrun
  | op op pin =>
    cases hstep
    exact placed_op B h op pin

/-- A pin keeps its place. -/
theorem place_watch (h : Placed w) {e : Event} (hcounted : e.Counted)
    (hstep : watch B content w e = some w') {pin : Int} {p : Place} (hplace : w.ledger.place pin = some p) : w'.ledger.place pin = some p := by
  cases e with
  | op op pin =>
    cases hstep
    rwa [Ledger.ask_place]
  | setup u =>
    obtain ⟨s, hrun, rfl⟩ := Option.map_eq_some_iff.mp hstep
    cases hopened : u.opened with
    | false => exact hplace
    | true =>
      rcases u.run_opened B (hcounted hopened) hopened w.globals with ⟨-, hnone⟩ | ⟨node, bus, -, hnew, -⟩
      · rw [hnone] at hrun
        cases hrun
      · have hout : ¬ inRange u.pinBase u.size pin := fun hin => by
          rw [h.place, hnew.free pin hin] at hplace
          cases hplace
        exact (if_neg hout).trans hplace

theorem Placed.taken_iff (h : Placed w) {u : Setup} : u.Taken w.globals ↔
    u.pinBase < 64 ∨ ∃ pin, inRange u.pinBase u.size pin ∧ w.ledger.place pin ≠ none := by
  unfold Setup.Taken
  simp only [h.place, ne_eq, Option.map_eq_none_iff]

theorem Setup.run_none_iff {u : Setup} (hcounted : u.Counted) (hopened : u.opened = true) {s : Globals β} :
    u.run B s = none ↔ u.Taken s := by
  rcases u.run_opened B hcounted hopened s with ⟨htaken, hnone⟩ | ⟨node, bus, hsome, hnew, -⟩
  · exact iff_of_true hnone htaken
  · refine iff_of_false (by rw [hsome]; nofun) ?_
    rintro (hlow | ⟨pin, hin, hfound⟩)
    · exact absurd hnew.least (Int.not_le.mpr hlow)
    · exact hfound (hnew.free pin hin)

/-- The pins of the board have no place. -/
theorem Placed.offBoard (h : Placed w) {pin : Int} (hplace : w.ledger.place pin ≠ none) : 64 ≤ pin := by
  rw [h.place, ne_eq, Option.map_eq_none_iff] at hplace
  obtain ⟨node, hfound⟩ := Option.ne_none_iff_exists'.mp hplace
  obtain ⟨hmem, hcovers⟩ := findNode_mem hfound
  have hleast := h.least node hmem
  have hlo := (Lib.Ranges.covers_iff.mp hcovers).1
  omega

end Placed

/-- **A pin number stands for one pin of one chip, from its set-up on.** The search
through the nodes finds that, whatever was set up since; a set-up whose bus can be
opened ends the program exactly where one of its pins is the board's or has its place
already. -/
theorem pin_numbers_stand (content : β → Content) (returnCodes : Bool) (bus : β) {w : Watched β}
    (h : Reach (watch B content) (fun _ e => e.Counted) (started returnCodes bus) w) :
    (∀ pin, (wiringPiFindNode w.globals.nodes pin).map (nodePlace pin) = w.ledger.place pin) ∧
    (∀ pin, w.ledger.place pin ≠ none → 64 ≤ pin) ∧
    (∀ u : Setup, u.opened = true → u.Counted → (watch B content w (.setup u) = none ↔
      u.pinBase < 64 ∨ ∃ pin, inRange u.pinBase u.size pin ∧ w.ledger.place pin ≠ none)) ∧
    ∀ w', Reach (watch B content) (fun _ e => e.Counted) w w' → ∀ pin p,
      w.ledger.place pin = some p → w'.ledger.place pin = some p := by
  have hplaced : Placed w :=
    reach_inv h (placed_started returnCodes bus) fun _ _ _ ht he hstep => placed_watch B ht he hstep
  refine ⟨fun pin => (hplaced.place pin).symm, fun _ => hplaced.offBoard, fun u hopened hcounted => ?_,
    fun w' hreach pin p hplace => ?_⟩
  · rw [← hplaced.taken_iff, ← Setup.run_none_iff B hcounted hopened]
    exact Option.map_eq_none_iff
  · have hboth : Placed w' ∧ w'.ledger.place pin = some p :=
      reach_inv (I := fun t => Placed t ∧ t.ledger.place pin = some p) hreach ⟨hplaced, hplace⟩
        fun _ _ _ ht he hstep => ⟨placed_watch B ht.1 he hstep, place_watch B ht.1 he hstep ht.2⟩
    exact hboth.2

/-! ## On a bus of MCP23008s -/

/-- Every chip is an MCP23008; a pin has the level it is driven to. -/
def mcp23008Bus : Bus Content where
  readReg s line reg :=
    ((if reg = mcp23x08Iodir then s line .input false
      else if reg = mcp23x08Gppu then s line .pulled false
      else s line .latch false).setWidth 32, s)
  writeReg s line reg v :=
    if reg = mcp23x08Iodir then s.set line .input false v
    else if reg = mcp23x08Gppu then s.set line .pulled false v
    else if reg = mcp23x08Gpio then s.set line .latch false v
    else s
  read s _ := (0, s)
  write s _ _ := s

/-- One chip with its pins from 100 on, all inputs. -/
def ledUnit : Setup := ⟨.mcp23008, 100, 0, 0x20, 0, 0, true⟩

def ledRegisters : Content := fun _ r _ => if r = .input then 0xFF else 0

def ledFitted : Watched Content :=
  ⟨⟨[⟨100, 107, 0x20, 0, 0, 0, 0, .mcp23008⟩], false, ledRegisters⟩, blank.enter ledRegisters ledUnit⟩

theorem ledFitted_next :
    watch mcp23008Bus id (started false ledRegisters) (.setup ledUnit) = some ledFitted := rfl

theorem ledUnit_counted : (Event.setup ledUnit).Counted := fun _ => ⟨by decide, by decide⟩

/-- Pins 100 to 107 are the chip's; another chip at 105 would overlap. -/
theorem pin_numbers_stand_fitted :
    (wiringPiFindNode ledFitted.globals.nodes 103).map (nodePlace 103) =
        some ⟨.mcp23008, .i2c 0x20, 3⟩ ∧
      watch mcp23008Bus id ledFitted (.setup { ledUnit with pinBase := 105, i2cAddress := 0x21 }) =
        none :=
  have h := pin_numbers_stand mcp23008Bus id false ledRegisters
    (.step .start ledUnit_counted ledFitted_next)
  ⟨h.1 103, (h.2.2.1 { ledUnit with pinBase := 105, i2cAddress := 0x21 } rfl
    ⟨by decide, by decide⟩).mpr (.inr ⟨105, by decide, nofun⟩)⟩

end SmartPrince.Wiring.ExpanderSoundness

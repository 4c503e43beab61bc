import SmartPrince.Lib.ShiftRegister
import SmartPrince.Wiring.OnBoardSoundness

/-! # The shift register expander

`sr595.c` drives a chain of 74x595 by three pins of the board: each write shifts
out all outputs again and latches them. The chain here hangs on those pins, and
sees each change of their levels. -/
namespace SmartPrince.Wiring.Sr595
open SmartPrince.Lib.Register SmartPrince.Lib.ShiftRegister SmartPrince.Wiring.Nodes
open SmartPrince.Wiring.OnBoard SmartPrince.Wiring.PinSettings

/-! ## The functions of the file -/

/-- What is left in the node, and the calls. -/
def myDigitalWrite (node : Node) (pin : Int) (value : BitVec 32) : Node × List Op :=
  let bits := (node.pinMax - node.pinBase + 1).toNat
  let dataPin := node.data0.toInt
  let clockPin := node.data1.toInt
  let latchPin := node.data2.toInt
  let output := withBit node.data3 (pin - node.pinBase).toNat (decide (value ≠ 0))
  ({ node with data3 := output },
    .digitalWrite latchPin 0 ::
      ((List.range bits).reverse.flatMap fun bit => [
        .digitalWrite dataPin (output &&& 1#32 <<< bit), .digitalWrite clockPin 1, .digitalWrite clockPin 0]) ++
      [.digitalWrite latchPin 1])

def sr595Setup (nodes : List Node) (pinBase numPins dataPin clockPin latchPin : Int) :
    Option (Node × List Op) :=
  (wiringPiNewNode nodes pinBase numPins).map fun node => ({ node with
      data0 := BitVec.ofInt 32 dataPin
      data1 := BitVec.ofInt 32 clockPin
      data2 := BitVec.ofInt 32 latchPin
      data3 := 0 }, [
    .digitalWrite dataPin 0, .digitalWrite clockPin 0, .digitalWrite latchPin 1,
    .pinMode dataPin .output, .pinMode clockPin .output, .pinMode latchPin .output])

/-! ## The chain on the board -/

/-- The chain follows the levels of the pins that its wires are on. -/
def observe (lines : Wire → Nat) (b : Board) (c : Chain) : Chain :=
  [Wire.data, .clock, .latch].foldl (fun c wire => c.set wire (b.gpio.level (lines wire))) c

structure Bench where
  node : Node
  board : Board
  chain : Chain

def Bench.op (lines : Wire → Nat) (w : Bench) (op : Op) : Option Bench :=
  (op.run w.board).map fun board => { w with board, chain := observe lines board w.chain }

def Bench.ops (lines : Wire → Nat) (ops : List Op) (w : Bench) : Option Bench := ops.foldlM (Bench.op lines) w

/-- What the program does with the chain there: `digitalWrite` to a pin of the
node, or anything with the board's own pins. -/
inductive Event where
  | write (pin : Int) (value : BitVec 32)
  | board (op : Op)

/-- What an event makes of the node, and its calls. -/
def Event.calls (e : Event) (node : Node) : Node × List Op :=
  match e with
  | .write pin value => if node.covers pin then myDigitalWrite node pin value else (node, [])
  | .board op => (node, [op])

def Bench.event (lines : Wire → Nat) (w : Bench) (e : Event) : Option Bench :=
  Bench.ops lines (e.calls w.node).2 { w with node := (e.calls w.node).1 }

def Bench.events (lines : Wire → Nat) (es : List Event) (w : Bench) : Option Bench :=
  es.foldlM (Bench.event lines) w

/-! ## What the chain sees -/

section See
variable {lines : Wire → Nat} {b : Board} {c : Chain}

theorem observe_level (wire : Wire) : (observe lines b c).level wire = b.gpio.level (lines wire) := by
  cases wire <;> simp [observe]

/-- One level that changes is one wire that is set. -/
theorem observe_one {x : Wire} {on : Bool} (hx : b.gpio.level (lines x) = on)
    (hother : ∀ v, v ≠ x → b.gpio.level (lines v) = c.level v) : observe lines b c = c.set x on := by
  unfold observe
  cases x with
  | data =>
    simp only [List.foldl_cons, List.foldl_nil]
    rw [hx, @set_same _ .clock _ (by simp [hother .clock]), @set_same _ .latch _ (by simp [hother .latch])]
  | clock =>
    simp only [List.foldl_cons, List.foldl_nil]
    rw [hx, @set_same _ .data _ (by simp [hother .data]), @set_same _ .latch _ (by simp [hother .latch])]
  | latch =>
    simp only [List.foldl_cons, List.foldl_nil]
    rw [hx, @set_same _ .data _ (by simp [hother .data]), @set_same _ .clock _ (by simp [hother .clock])]

theorem observe_none (h : ∀ v, b.gpio.level (lines v) = c.level v) : observe lines b c = c :=
  (observe_one (h .data) fun v _ => h v).trans (set_same rfl)

end See

end SmartPrince.Wiring.Sr595

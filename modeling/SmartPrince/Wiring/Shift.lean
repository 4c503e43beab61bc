import SmartPrince.Lib.Loop
import SmartPrince.Wiring.Sr595Soundness

/-! # Bytes over two pins

`wiringShift.c` moves a byte by a data and a clock pin, the highest bit first or
the lowest. On a chain of stages the bytes line up one behind the other, and come
back over a pin that is wired to the stage behind the last. -/
namespace SmartPrince.Wiring.Shift
open SmartPrince.Lib.Loop SmartPrince.Lib.Register SmartPrince.Lib.ShiftRegister SmartPrince.Wiring.Nodes
open SmartPrince.Wiring.OnBoard SmartPrince.Wiring.PinSettings SmartPrince.Wiring.Sr595
open SmartPrince.Wiring.OnBoardSoundness SmartPrince.Wiring.Sr595Soundness

/-- `MSBFIRST`; any other order is `LSBFIRST`. -/
def msbFirst : BitVec 8 := 1

/-- `i` as the loops of the file count it -/
def turns (order : BitVec 8) : List Nat := if order = msbFirst then (List.range 8).reverse else List.range 8

def shiftOut (dPin cPin order val : BitVec 8) : List Op :=
  (turns order).flatMap fun i => [
    .digitalWrite dPin.toNat (val.setWidth 32 &&& 1#32 <<< i),
    .digitalWrite cPin.toNat 1, .digitalWrite cPin.toNat 0]

section ShiftIn
variable {σ : Type} (write : Int → BitVec 32 → σ → Option σ) (read : Int → σ → Option Bool)

/-- `value |= digitalRead (dPin) << i` -/
def takeBit (value : BitVec 8) (i : Nat) (on : Bool) : BitVec 8 := value ||| (if on then 1#8 else 0#8) <<< i

def shiftInBit (dPin cPin : BitVec 8) (s : BitVec 8 × σ) (i : Nat) : Option (BitVec 8 × σ) := do
  let t ← write cPin.toNat 1 s.2
  let on ← read dPin.toNat t
  let t ← write cPin.toNat 0 t
  some (takeBit s.1 i on, t)

/-- The source answers what is written to the clock: `write` and `read` are `digitalWrite`
and `digitalRead` with it there. -/
def shiftIn (dPin cPin order : BitVec 8) (t : σ) : Option (BitVec 8 × σ) :=
  (turns order).foldlM (shiftInBit write read dPin cPin) (0, t)

end ShiftIn

/-! ## The chain as a source -/

/-- A pin of the board, by its number in the processor, that is wired to a stage -/
structure Tap where
  line : Nat
  stage : Nat

def Tap.bring (tap : Tap) (w : Bench) : Bench :=
  { w with board := w.board.withGpio { w.board.gpio with
      outside := Function.update w.board.gpio.outside tap.line (w.chain.stages tap.stage) } }

def Bench.write (lines : Wire → Nat) (tap : Tap) (pin : Int) (value : BitVec 32) (w : Bench) : Option Bench :=
  (w.op lines (.digitalWrite pin value)).map tap.bring

def Bench.read (pin : Int) (w : Bench) : Option Bool := digitalRead pin w.board

/-- A byte for each order, one after the other -/
def shiftIns (lines : Wire → Nat) (tap : Tap) (dPin cPin : BitVec 8) :
    List (BitVec 8) → Bench → Option (List (BitVec 8) × Bench)
  | [], w => some ([], w)
  | order :: orders, w => do
    let (value, w) ← shiftIn (Bench.write lines tap) Bench.read dPin cPin order w
    let (values, w) ← shiftIns lines tap dPin cPin orders w
    some (value :: values, w)

/-! ## What is sent -/

/-- The bits in the order they go out -/
def sent (order val : BitVec 8) : List Bool := (turns order).map val.getLsbD

theorem turns_length (order : BitVec 8) : (turns order).length = 8 := by
  unfold turns
  split <;> rfl

theorem sent_length (order val : BitVec 8) : (sent order val).length = 8 :=
  List.length_map _ |>.trans (turns_length order)

/-- The last bit that went out lies first in the chain. -/
theorem sent_reverse (order val : BitVec 8) {j : Nat} (hj : j < 8) :
    (sent order val).reverse[j]? = some (val.getLsbD (if order = msbFirst then j else 7 - j)) := by
  have hrange : ∀ k < 8, (List.range 8)[k]? = some k ∧ (List.range 8).reverse[k]? = some (7 - k) := by decide
  unfold sent turns
  split
  · rw [← List.map_reverse, List.reverse_reverse, List.getElem?_map, (hrange j hj).1]
    rfl
  · rw [← List.map_reverse, List.getElem?_map, (hrange j hj).2]
    rfl

section Link
variable {lines : Wire → Nat} {w : Bench}

/-- One byte on the wires of a chain -/
theorem shiftOut_calls {dPin cPin : BitVec 8} (node : Node) (hd : pinFor node .data = dPin.toNat)
    (hc : pinFor node .clock = cPin.toNat) (order val : BitVec 8) :
    shiftOut dPin cPin order val = callsFor node ((turns order).flatMap (bitSets (val.setWidth 32))) := by
  unfold shiftOut callsFor
  rw [List.map_flatMap]
  unfold bitSets
  simp only [List.map_cons, List.map_nil, hd, hc]

theorem levelsOf_sent (order val : BitVec 8) :
    levelsOf ((turns order).flatMap (bitSets (val.setWidth 32))) = clockIn (sent order val) := by
  have hturns : ∀ i ∈ turns order, i < 8 := by
    intro i hi
    unfold turns at hi
    split at hi
    · exact List.mem_range.mp (List.mem_reverse.mp hi)
    · exact List.mem_range.mp hi
  have hbit : ∀ i ∈ turns order, levelsOf (bitSets (val.setWidth 32) i) = pulse (val.getLsbD i) := by
    intro i hi
    have hlt := hturns i hi
    rw [levelsOf_bitSets _ (show i < 32 by omega), BitVec.getLsbD_setWidth, decide_eq_true (by omega),
      Bool.true_and]
  unfold levelsOf at hbit ⊢
  unfold clockIn sent
  rw [List.map_flatMap, List.flatMap_map, List.flatMap_congr hbit]

/-- Bytes on the wires, each in an order of its own -/
def shiftOuts (dPin cPin : BitVec 8) (sends : List (BitVec 8 × BitVec 8)) : List Op :=
  sends.flatMap fun s => shiftOut dPin cPin s.1 s.2

/-- What they set on the wires -/
def outSets (sends : List (BitVec 8 × BitVec 8)) : List (Wire × BitVec 32) :=
  sends.flatMap fun s => (turns s.1).flatMap (bitSets (s.2.setWidth 32))

theorem shiftOuts_calls {dPin cPin : BitVec 8} (node : Node) (hd : pinFor node .data = dPin.toNat)
    (hc : pinFor node .clock = cPin.toNat) (sends : List (BitVec 8 × BitVec 8)) :
    shiftOuts dPin cPin sends = callsFor node (outSets sends) := by
  unfold shiftOuts outSets
  rw [callsFor, List.map_flatMap]
  exact List.flatMap_congr fun s _ => shiftOut_calls node hd hc s.1 s.2

theorem levelsOf_outSets (sends : List (BitVec 8 × BitVec 8)) :
    levelsOf (outSets sends) = clockIn (sends.flatMap fun s => sent s.1 s.2) := by
  rw [levelsOf, outSets, List.map_flatMap, clockIn, List.flatMap_assoc]
  exact List.flatMap_congr fun s _ => levelsOf_sent s.1 s.2

end Link

/-! ## What is received -/

theorem getLsbD_collected (pairs : List (Nat × Bool)) (hpairs : ∀ p ∈ pairs, p.1 < 8) (acc : BitVec 8) (j : Nat) :
    (pairs.foldl (fun value p => takeBit value p.1 p.2) acc).getLsbD j =
      (acc.getLsbD j || pairs.any fun p => decide (p.1 = j) && p.2) := by
  induction pairs generalizing acc with
  | nil => simp
  | cons p pairs ih =>
    have hp := hpairs p List.mem_cons_self
    have hbit : ((if p.2 then 1#8 else 0#8) <<< p.1).getLsbD j = (decide (p.1 = j) && p.2) := by
      rw [← Bool.coe_iff_coe]
      cases p.2 with
      | false => simp
      | true =>
        simp
        omega
    rw [List.foldl_cons, ih fun p hp => hpairs p (List.mem_cons_of_mem _ hp), takeBit, BitVec.getLsbD_or,
      hbit, List.any_cons, Bool.or_assoc]

/-- The byte that is put together from bits in the order they come -/
def collected (order : BitVec 8) (bits : List Bool) : BitVec 8 :=
  ((turns order).zip bits).foldl (fun value p => takeBit value p.1 p.2) 0

/-- Which bit of the byte comes in the turn for bit `i` -/
def crossed (order order' : BitVec 8) (i : Nat) : Nat :=
  if (order = msbFirst ↔ order' = msbFirst) then i else 7 - i

theorem zip_sent (order order' val : BitVec 8) : (turns order').zip (sent order val) =
    (turns order').map fun i => (i, val.getLsbD (crossed order order' i)) := by
  unfold sent crossed turns
  by_cases h : order = msbFirst
  · by_cases h' : order' = msbFirst
    · rw [if_pos h, if_pos h']
      simp only [if_pos (iff_of_true h h')]
      rfl
    · rw [if_pos h, if_neg h']
      simp only [if_neg fun hiff : order = msbFirst ↔ order' = msbFirst => h' (hiff.mp h)]
      rfl
  · by_cases h' : order' = msbFirst
    · rw [if_neg h, if_pos h']
      simp only [if_neg fun hiff : order = msbFirst ↔ order' = msbFirst => h (hiff.mpr h')]
      rfl
    · rw [if_neg h, if_neg h']
      simp only [if_pos (iff_of_false h h')]
      rfl

theorem collected_sent (order order' val : BitVec 8) {j : Nat} (hj : j < 8) :
    (collected order' (sent order val)).getLsbD j = val.getLsbD (crossed order order' j) := by
  have hturns : ∀ i, i ∈ turns order' ↔ i < 8 := by
    intro i
    unfold turns
    split
    · rw [List.mem_reverse, List.mem_range]
    · exact List.mem_range
  unfold collected
  rw [zip_sent, getLsbD_collected _ fun p hp => by
    obtain ⟨i, hi, rfl⟩ := List.mem_map.mp hp
    exact (hturns i).mp hi]
  have hzero : (0 : BitVec 8).getLsbD j = false := BitVec.getLsbD_zero
  rw [hzero, Bool.false_or, List.any_map, ← Bool.coe_iff_coe, List.any_eq_true]
  constructor
  · rintro ⟨i, -, hi⟩
    obtain ⟨hij, hbit⟩ := Bool.and_eq_true_iff.mp hi
    rwa [← of_decide_eq_true hij]
  · intro hbit
    exact ⟨j, (hturns j).mpr hj, Bool.and_eq_true_iff.mpr ⟨decide_eq_true rfl, hbit⟩⟩

/-- The bits that come to a stage next -/
structure Ready (stage : Nat) (bits : List Bool) (c : Chain) : Prop where
  room : bits.length ≤ stage
  stages : ∀ t on, bits[t]? = some on → c.stages (stage - 1 - t) = on

/-- A pin that `digitalRead` finds what is brought to -/
structure Readable (tap : Tap) (dPin : BitVec 8) (b : Board) : Prop where
  number : numberOf b.toSetup dPin.toNat = some tap.line
  input : b.gpio.function tap.line ≠ fselOutp
  opened : b.wiringPiMode = .gpioSys → b.sysFds tap.line = true

section Source
variable {lines : Wire → Nat} {w : Bench} {tap : Tap} {dPin cPin : BitVec 8}

theorem Readable.stays {w' : Bench} (h : Readable tap dPin w.board) (hstays : Stays lines w w') :
    Readable tap dPin w'.board := by
  obtain ⟨hnumber, hinput, hopened⟩ := h
  have hmode : w'.board.wiringPiMode = w.board.wiringPiMode := congrArg Setup.wiringPiMode hstays.setup
  have hfds : w'.board.sysFds = w.board.sysFds := congrArg Setup.sysFds hstays.setup
  exact ⟨by rw [hstays.setup]; exact hnumber, by rw [hstays.function]; exact hinput,
    by rw [hmode, hfds]; exact hopened⟩

/-- The wires are outputs, and nothing is brought to them. -/
theorem fitted_bring (h : Fitted lines w) : Fitted lines (tap.bring w) := by
  refine ⟨h.names, h.output, h.driven, fun v => (h.levels v).trans ?_⟩
  have hbrought : (tap.bring w).board.gpio.function (lines v) = fselOutp := h.output v
  rw [Gpio.level, if_pos (h.output v), Gpio.level, if_pos hbrought]
  rfl

section Bit
variable (hinj : ∀ u v, lines u = lines v → u = v) (h : Fitted lines w)
  (hc : pinFor w.node .clock = cPin.toNat)
include hinj h hc

theorem write_clock (value : BitVec 32) : ∃ w', Bench.write lines tap cPin.toNat value w = some w' ∧
    Stays lines w w' ∧ w'.chain = w.chain.set .clock (decide (value ≠ 0)) ∧
    w'.board.gpio.outside tap.line = w'.chain.stages tap.stage := by
  obtain ⟨w', hop, hstays, hchain⟩ := op_wire hinj h .clock value
  rw [hc] at hop
  refine ⟨tap.bring w', ?_, ⟨fitted_bring hstays.fitted, hstays.node, hstays.setup, hstays.function⟩,
    hchain, Function.update_self ..⟩
  rw [Bench.write, hop]
  rfl

omit hinj h hc in
theorem read_tap (hread : Readable tap dPin w.board)
    (hbrought : w.board.gpio.outside tap.line = w.chain.stages tap.stage) :
    Bench.read dPin.toNat w = some (w.chain.stages tap.stage) := by
  rw [Bench.read, digitalRead_number hread.number hread.opened, Gpio.level, if_neg hread.input, hbrought]

/-- One turn: the chain moves on at the rising clock, and then the pin is read. -/
theorem shiftInBit_ready (hread : Readable tap dPin w.board) (hclock : w.chain.level .clock = false)
    {on : Bool} {bits : List Bool} (hready : Ready tap.stage (on :: bits) w.chain) (value : BitVec 8)
    (i : Nat) : ∃ w', shiftInBit (Bench.write lines tap) Bench.read dPin cPin (value, w) i =
        some (takeBit value i on, w') ∧ Stays lines w w' ∧ w'.chain.level .clock = false ∧
      w'.chain.outputs = w.chain.outputs ∧ Ready tap.stage bits w'.chain := by
  obtain ⟨w₁, hup, hfirst, hrise, hbrought⟩ := @write_clock lines w tap cPin hinj h hc 1
  obtain ⟨w', hdown, hlast, hfall, -⟩ :=
    @write_clock lines w₁ tap cPin hinj hfirst.fitted (by rw [hfirst.node]; exact hc) 0
  obtain ⟨hroom, hbits⟩ := hready
  obtain ⟨stage, hstage⟩ : ∃ stage, tap.stage = stage + 1 := ⟨tap.stage - 1, by simp at hroom; omega⟩
  have hstages : ∀ k, w₁.chain.stages (k + 1) = w.chain.stages k := fun k => by
    rw [hrise]
    exact congrFun (if_pos ⟨rfl, hclock, rfl⟩) (k + 1)
  have hon : w₁.chain.stages tap.stage = on := by
    rw [hstage, hstages]
    have hfirstBit := hbits 0 on rfl
    rwa [hstage] at hfirstBit
  have hvalue := read_tap (hread.stays hfirst) hbrought
  have hkeeps : w'.chain.stages = w₁.chain.stages := by
    rw [hfall]
    exact if_neg fun hrises => nomatch hrises.2.2
  refine ⟨w', ?_, hfirst.trans hlast, by rw [hfall]; rfl, by rw [hfall, hrise]; rfl, ?_, ?_⟩
  · rw [shiftInBit, hup, Option.bind_eq_bind, Option.bind_some, hvalue, Option.bind_eq_bind,
      Option.bind_some, hdown, hon]
    rfl
  · exact Nat.le_of_succ_le hroom
  · intro t on' ht
    have hlt : t < bits.length := (List.getElem?_eq_some_iff.mp ht).1
    rw [List.length_cons, hstage] at hroom
    rw [hkeeps, hstage, show stage + 1 - 1 - t = stage - (t + 1) + 1 by omega, hstages]
    have hnext := hbits (t + 1) on' ht
    rwa [hstage] at hnext

/-- The turns of a byte -/
theorem turns_ready (hread : Readable tap dPin w.board) (hclock : w.chain.level .clock = false)
    {bits rest : List Bool} (hready : Ready tap.stage (bits ++ rest) w.chain) {is : List Nat}
    (hlength : is.length = bits.length) (value : BitVec 8) :
    ∃ w', is.foldlM (shiftInBit (Bench.write lines tap) Bench.read dPin cPin) (value, w) =
        some ((is.zip bits).foldl (fun value p => takeBit value p.1 p.2) value, w') ∧
      Stays lines w w' ∧ w'.chain.level .clock = false ∧ w'.chain.outputs = w.chain.outputs ∧
      Ready tap.stage rest w'.chain := by
  induction is generalizing w bits value with
  | nil =>
    obtain rfl : bits = [] := List.eq_nil_of_length_eq_zero hlength.symm
    exact ⟨w, rfl, .refl h, hclock, rfl, hready⟩
  | cons i is ih =>
    cases bits with
    | nil => cases hlength
    | cons on bits =>
      obtain ⟨w₁, hbit, hfirst, hlow, houtputs, hnext⟩ :=
        shiftInBit_ready hinj h hc hread hclock hready value i
      obtain ⟨w', hturns, hrest, hlow', houtputs', hready'⟩ := ih hfirst.fitted
        (by rw [hfirst.node]; exact hc) (hread.stays hfirst) hlow hnext (Nat.succ.inj hlength)
        (takeBit value i on)
      refine ⟨w', ?_, hfirst.trans hrest, hlow', houtputs'.trans houtputs, hready'⟩
      rw [List.foldlM_cons, hbit]
      exact hturns

/-- The bytes of the bits that are ready, each in an order of its own -/
theorem shiftIns_ready (hread : Readable tap dPin w.board) (hclock : w.chain.level .clock = false)
    {sends : List (BitVec 8 × BitVec 8)}
    (hready : Ready tap.stage (sends.flatMap fun s => sent s.1 s.2) w.chain) {orders : List (BitVec 8)}
    (hlength : orders.length = sends.length) :
    ∃ w', shiftIns lines tap dPin cPin orders w =
        some (List.zipWith (fun order s => collected order (sent s.1 s.2)) orders sends, w') ∧
      w'.chain.outputs = w.chain.outputs := by
  induction orders generalizing w sends with
  | nil => exact ⟨w, rfl, rfl⟩
  | cons order orders ih =>
    cases sends with
    | nil => cases hlength
    | cons s sends =>
      rw [List.flatMap_cons] at hready
      obtain ⟨w₁, hbyte, hfirst, hlow, houtputs, hnext⟩ := turns_ready hinj h hc hread hclock hready
        ((turns_length order).trans (sent_length s.1 s.2).symm) 0
      obtain ⟨w', hbytes, houtputs'⟩ := ih hfirst.fitted (by rw [hfirst.node]; exact hc)
        (hread.stays hfirst) hlow hnext (Nat.succ.inj hlength)
      refine ⟨w', ?_, houtputs'.trans houtputs⟩
      have hshift : shiftIn (Bench.write lines tap) Bench.read dPin cPin order w =
          some (collected order (sent s.1 s.2), w₁) := hbyte
      rw [shiftIns, hshift, Option.bind_eq_bind, Option.bind_some]
      dsimp only
      rw [hbytes]
      rfl

end Bit

/-- What was clocked in comes to the stage behind it first bit first. -/
theorem ready_taken {bits : List Bool} {c c' : Chain} (h : Taken c bits c') : Ready bits.length bits c' := by
  refine ⟨Nat.le_refl _, fun t on ht => ?_⟩
  have hlt : t < bits.length := (List.getElem?_eq_some_iff.mp ht).1
  rw [h.stages, List.getElem?_reverse (by omega), show bits.length - 1 - (bits.length - 1 - t) = t by omega, ht]
  rfl

end Source

/-- **Bytes line up in the chain, and come back.** On wires whose clock is low each byte that
goes out moves the ones before it on by eight stages and lies in the first eight, its
highest bit last or first as its order says; the latched outputs stay. Over a pin that is an
input and wired to the stage behind the last byte, as many bytes that are shifted in are
those that went out, each as it was if its order is the sender's, and else with the bits
turned round. -/
theorem bytes_line_up {lines : Wire → Nat} {w : Bench} (hinj : ∀ u v, lines u = lines v → u = v)
    (h : Fitted lines w) (hclock : w.chain.level .clock = false) {dPin cPin : BitVec 8}
    (hd : pinFor w.node .data = dPin.toNat) (hc : pinFor w.node .clock = cPin.toNat)
    (sends : List (BitVec 8 × BitVec 8)) : ∃ w', w.ops lines (shiftOuts dPin cPin sends) = some w' ∧
      w'.chain.outputs = w.chain.outputs ∧
      (∀ i s, sends.reverse[i]? = some s → ∀ j < 8,
        w'.chain.stages (8 * i + j) = s.2.getLsbD (if s.1 = msbFirst then j else 7 - j)) ∧
      (∀ k, w'.chain.stages (8 * sends.length + k) = w.chain.stages k) ∧
      ∀ (tap : Tap) (inPin : BitVec 8) (orders : List (BitVec 8)), tap.stage = 8 * sends.length →
        Readable tap inPin w.board → orders.length = sends.length →
        ∃ values w'', shiftIns lines tap inPin cPin orders w' = some (values, w'') ∧
          w''.chain.outputs = w.chain.outputs ∧
          ∀ (i : Nat) (s : BitVec 8 × BitVec 8) (order' : BitVec 8), sends[i]? = some s →
            orders[i]? = some order' → ∃ value : BitVec 8, values[i]? = some value ∧
              ∀ j < 8, value.getLsbD j = s.2.getLsbD (crossed s.1 order' j) := by
  have hlength : ∀ s : BitVec 8 × BitVec 8, (sent s.1 s.2).length = 8 := fun s => sent_length s.1 s.2
  have hsum : ∀ sends : List (BitVec 8 × BitVec 8),
      (sends.flatMap fun s => sent s.1 s.2).length = 8 * sends.length := by
    intro sends
    induction sends with
    | nil => rfl
    | cons s sends ih =>
      rw [List.flatMap_cons, List.length_append, ih, hlength, List.length_cons]
      omega
  obtain ⟨w', hops, hstays, hchain⟩ := ops_wires hinj h (outSets sends)
  rw [levelsOf_outSets] at hchain
  have htaken := @run_clockIn _ (sends.flatMap fun s => sent s.1 s.2) hclock
  rw [← hchain] at htaken
  rw [shiftOuts_calls w.node hd hc]
  refine ⟨w', hops, htaken.outputs, fun i s hs j hj => ?_, fun k => ?_,
    fun tap inPin orders hstage hread horders => ?_⟩
  · rw [htaken.stages, List.reverse_flatMap]
    have hgroup := @getElem?_groups _ _ (fun s : BitVec 8 × BitVec 8 => (sent s.1 s.2).reverse) 8
      (fun s => (List.length_reverse).trans (hlength s)) sends.reverse i j hj
    rw [hs, Option.bind_some, sent_reverse _ _ hj] at hgroup
    rw [show (List.flatMap (List.reverse ∘ fun s => sent s.1 s.2) sends.reverse)[8 * i + j]? = _ from hgroup]
    rfl
  · rw [htaken.stages, List.getElem?_eq_none (by rw [List.length_reverse, hsum]; omega), hsum,
      Nat.add_sub_cancel_left]
    rfl
  · have hready := ready_taken htaken
    rw [hsum, ← hstage] at hready
    obtain ⟨w'', hins, houtputs⟩ := shiftIns_ready hinj hstays.fitted (by rw [hstays.node]; exact hc)
      (hread.stays hstays) htaken.clock hready horders
    refine ⟨_, w'', hins, houtputs.trans htaken.outputs, fun i s order' hs horder' => ?_⟩
    refine ⟨collected order' (sent s.1 s.2), ?_, fun j hj => collected_sent _ _ _ hj⟩
    rw [List.getElem?_zipWith, hs, horder']

/-- The wires of a chain are outputs, and pin 22 is an input. -/
def wiredBench : Bench where
  node := ledNode
  board := (freshBoard .pins).withGpio { (freshBoard .pins).gpio with
    fsel := fun word => if word = 1 then 0x01200000 else if word = 2 then 0x00200000 else 0 }
  chain := darkChain

theorem wiredBench_fitted : Fitted ledLines wiredBench where
  names v := by cases v <;> rfl
  output v := by cases v <;> rfl
  driven v := by cases v <;> rfl
  levels v := by cases v <;> rfl

/-- Two bytes go out, the second with its lowest bit first, and come back with the highest
bits first. -/
theorem bytes_line_up_two : ∃ w' w'' values,
    wiredBench.ops ledLines (shiftOuts 0 1 [(1, 0xA5), (0, 0x01)]) = some w' ∧
    w'.chain.stages 7 = true ∧ w'.chain.stages 8 = true ∧ w'.chain.stages 9 = false ∧
    shiftIns ledLines ⟨22, 16⟩ 3 1 [1, 1] w' = some (values, w'') ∧
    values[0]?.map (BitVec.getLsbD · 7) = some true ∧ values[1]?.map (BitVec.getLsbD · 7) = some true := by
  obtain ⟨w', hops, -, hstages, -, hback⟩ := @bytes_line_up ledLines wiredBench ledLines_placed.apart
    wiredBench_fitted rfl 0 1 rfl rfl [(1, 0xA5), (0, 0x01)]
  obtain ⟨values, w'', hins, -, hvalues⟩ := hback ⟨22, 16⟩ 3 [1, 1] rfl ⟨rfl, by decide, nofun⟩ rfl
  obtain ⟨first, hfirst, hbits⟩ := hvalues 0 _ _ rfl rfl
  obtain ⟨second, hsecond, hbits'⟩ := hvalues 1 _ _ rfl rfl
  refine ⟨w', w'', values, hops, (hstages 0 _ rfl 7 (by decide)).trans (by decide), ?_⟩
  refine ⟨(hstages 1 _ rfl 0 (by decide)).trans (by decide), ?_, hins, ?_, ?_⟩
  · exact (hstages 1 _ rfl 1 (by decide)).trans (by decide)
  · rw [hfirst]
    exact congrArg some ((hbits 7 (by decide)).trans (by decide))
  · rw [hsecond]
    exact congrArg some ((hbits' 7 (by decide)).trans (by decide))

end SmartPrince.Wiring.Shift

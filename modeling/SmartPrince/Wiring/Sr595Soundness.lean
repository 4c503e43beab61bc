import SmartPrince.Wiring.Sr595

/-! # What the shift register's outputs hold

Each output of the chain is what its pin was last written, whatever else the
program did with the board's other pins in between, and no output changes but at
the end of a write. -/
namespace SmartPrince.Wiring.Sr595Soundness
open SmartPrince.Lib.Register SmartPrince.Lib.ShiftRegister SmartPrince.Wiring.Nodes
open SmartPrince.Wiring.OnBoard SmartPrince.Wiring.PinSettings SmartPrince.Wiring.OnBoardRegisters
open SmartPrince.Wiring.OnBoardPins SmartPrince.Wiring.OnBoardBytes SmartPrince.Wiring.OnBoardSoundness
open SmartPrince.Wiring.Sr595

/-! ## What an operation leaves alone -/

/-- Whether an operation is about the pin. -/
def names (s : Setup) (p : Nat) : Op → Bool
  | .pinModeAlt pin _ | .pinMode pin _ | .pullUpDnControl pin _ | .digitalWrite pin _ =>
    decide (numberOf s pin = some p)
  | .digitalWriteByte _ => (List.range 8).any fun k => bytePin s.layout k = p
  | .digitalWriteByte2 _ => decide (20 ≤ p ∧ p < 28)

theorem step_apart {s : Setup} {p : Nat} {op : Op} (h : names s p op = false) (l : Pins) :
    (l.step s op).mode p = l.mode p ∧ (l.step s op).level p = l.level p := by
  have hat : ∀ {pin : Int} {f : Nat → Pins}, decide (numberOf s pin = some p) = false →
      (∀ n, n ≠ p → (f n).mode p = l.mode p ∧ (f n).level p = l.level p) →
      (l.atPin s pin f).mode p = l.mode p ∧ (l.atPin s pin f).level p = l.level p := by
    intro pin f hpin hf
    unfold Pins.atPin
    split
    · exact ⟨rfl, rfl⟩
    · cases hn : numberOf s pin with
      | none => exact ⟨rfl, rfl⟩
      | some n => exact hf n fun hnp => of_decide_eq_false hpin (hn.trans (congrArg some hnp))
  have hmode : ∀ n alt, n ≠ p → (l.setMode n alt).mode p = l.mode p ∧ (l.setMode n alt).level p = l.level p :=
    fun n alt hn => ⟨Function.update_of_ne (β := fun _ => BitVec 32) hn.symm alt l.mode, rfl⟩
  have hbits : ∀ lines value, (∀ k < 8, lines k ≠ p) →
      (l.setBits s lines value 8).mode p = l.mode p ∧ (l.setBits s lines value 8).level p = l.level p := by
    intro lines value hlines
    refine ⟨rfl, ?_⟩
    dsimp only [Pins.setBits]
    rw [bitFor_apart hlines]
    exact ite_self _
  cases op with
  | pinModeAlt pin mode => exact hat h fun n hn => hmode n _ hn
  | pinMode pin mode =>
    refine hat h fun n hn => ?_
    cases wanted mode n with
    | none => exact ⟨rfl, rfl⟩
    | some alt => exact hmode n _ hn
  | pullUpDnControl pin pud => exact hat h fun n hn => ⟨rfl, rfl⟩
  | digitalWrite pin value =>
    show (l.drive s pin _).mode p = _ ∧ (l.drive s pin _).level p = _
    unfold Pins.drive
    cases hn : numberOf s pin with
    | none => exact ⟨rfl, rfl⟩
    | some n =>
      have hne : n ≠ p := fun hnp => of_decide_eq_false h (hn.trans (congrArg some hnp))
      rw [Option.elim_some]
      split
      · exact ⟨rfl, Function.update_of_ne (β := fun _ => Bool) hne.symm _ l.level⟩
      · exact ⟨rfl, rfl⟩
  | digitalWriteByte value =>
    refine hbits (bytePin s.layout) value fun k hk hkp => ?_
    have hnone := List.any_eq_false.mp h k (List.mem_range.mpr hk)
    exact hnone (decide_eq_true hkp)
  | digitalWriteByte2 value =>
    refine hbits (20 + ·) value fun k hk hkp => ?_
    exact of_decide_eq_false h (by omega)

/-! ## The wires -/

def pinFor (node : Node) : Wire → Int
  | .data => node.data0.toInt
  | .clock => node.data1.toInt
  | .latch => node.data2.toInt

/-- The chain's wires are outputs of the board, and at their levels. -/
structure Fitted (lines : Wire → Nat) (w : Bench) : Prop where
  names : ∀ v, numberOf w.board.toSetup (pinFor w.node v) = some (lines v)
  output : ∀ v, w.board.gpio.function (lines v) = fselOutp
  driven : ∀ v, (pinsOf w.board.gpio).driven w.board.toSetup (lines v) = true
  levels : ∀ v, w.chain.level v = w.board.gpio.level (lines v)

section Wires
variable {lines : Wire → Nat} {w w' : Bench}

/-- What the pins of the wires are after an operation that leaves them outputs. -/
theorem driven_step {s : Setup} {l l' : Pins} {p : Nat} (hmode : l'.mode p = l.mode p) :
    l'.driven s p = l.driven s p := by
  unfold Pins.driven
  rw [hmode]

/-- What stays as it is while levels are written to the wires -/
structure Stays (lines : Wire → Nat) (w w' : Bench) : Prop where
  fitted : Fitted lines w'
  node : w'.node = w.node
  setup : w'.board.toSetup = w.board.toSetup
  function : w'.board.gpio.function = w.board.gpio.function

theorem Stays.refl (h : Fitted lines w) : Stays lines w w := ⟨h, rfl, rfl, rfl⟩

theorem Stays.trans {w₁ w' : Bench} (hfirst : Stays lines w w₁) (hrest : Stays lines w₁ w') :
    Stays lines w w' :=
  ⟨hrest.fitted, hrest.node.trans hfirst.node, hrest.setup.trans hfirst.setup,
    hrest.function.trans hfirst.function⟩

/-- A wire is brought to a level. -/
theorem op_wire (hinj : ∀ u v, lines u = lines v → u = v) (h : Fitted lines w) (x : Wire) (value : BitVec 32) :
    ∃ w', w.op lines (.digitalWrite (pinFor w.node x) value) = some w' ∧ Stays lines w w' ∧
      w'.chain = w.chain.set x (decide (value ≠ 0)) := by
  have hgives := @digitalWrite_gives w.board (pinFor w.node x) value
  have htable : inTables w.board.toSetup 64 (pinFor w.node x) = true := by
    unfold inTables
    rw [h.names x]
    simp [numberOf_lt (h.names x)]
  rw [htable, Pins.drive, h.names x, Option.elim_some, if_pos (h.driven x)] at hgives
  obtain ⟨b', hrun, hbecomes⟩ := hgives
  have hmode : b'.gpio.function = w.board.gpio.function := congrArg Pins.mode hbecomes.pins
  have hlatch : b'.gpio.latch = Function.update w.board.gpio.latch (lines x) (decide (value ≠ 0)) :=
    congrArg Pins.level hbecomes.pins
  have hlevel : ∀ v, b'.gpio.level (lines v) = if v = x then decide (value ≠ 0) else w.chain.level v := by
    intro v
    rw [h.levels v, Gpio.level, Gpio.level, hmode, if_pos (h.output v), if_pos (h.output v), hlatch,
      Function.update_apply]
    by_cases hv : v = x
    · rw [if_pos hv, if_pos (congrArg lines hv)]
    · rw [if_neg hv, if_neg fun hl => hv (hinj v x hl)]
  have hchain : observe lines b' w.chain = w.chain.set x (decide (value ≠ 0)) :=
    observe_one ((hlevel x).trans (if_pos rfl)) fun v hv => (hlevel v).trans (if_neg hv)
  refine ⟨{ w with board := b', chain := observe lines b' w.chain }, ?_,
    ⟨⟨?_, ?_, ?_, ?_⟩, rfl, hbecomes.setup, hmode⟩, hchain⟩
  · unfold Bench.op
    rw [show (Op.digitalWrite (pinFor w.node x) value).run w.board = some b' from hrun]
    rfl
  · rw [hbecomes.setup]
    exact h.names
  · intro v
    exact (congrFun hmode (lines v)).trans (h.output v)
  · intro v
    rw [hbecomes.setup, ← h.driven v]
    exact driven_step (congrFun hmode (lines v))
  · exact fun v => observe_level v

/-- The calls for what is set on the wires -/
def callsFor (node : Node) (sets : List (Wire × BitVec 32)) : List Op :=
  sets.map fun s => .digitalWrite (pinFor node s.1) s.2

def levelsOf (sets : List (Wire × BitVec 32)) : List (Wire × Bool) := sets.map fun s => (s.1, decide (s.2 ≠ 0))

theorem ops_wires (hinj : ∀ u v, lines u = lines v → u = v) (h : Fitted lines w)
    (sets : List (Wire × BitVec 32)) :
    ∃ w', w.ops lines (callsFor w.node sets) = some w' ∧ Stays lines w w' ∧
      w'.chain = w.chain.run (levelsOf sets) := by
  induction sets generalizing w with
  | nil => exact ⟨w, rfl, .refl h, rfl⟩
  | cons s sets ih =>
    obtain ⟨w₁, hop, hfirst, hchain⟩ := op_wire hinj h s.1 s.2
    obtain ⟨w', hops, hrest, hchain'⟩ := ih hfirst.fitted
    refine ⟨w', ?_, hfirst.trans hrest, ?_⟩
    · unfold Bench.ops callsFor at hops ⊢
      rw [List.map_cons, List.foldlM_cons, hop, ← hops, hfirst.node]
      rfl
    · rw [hchain', hchain]
      rfl

/-! ## One write -/

def bitSets (output : BitVec 32) (bit : Nat) : List (Wire × BitVec 32) :=
  [(.data, output &&& 1#32 <<< bit), (.clock, 1), (.clock, 0)]

/-- What a write of all outputs sets on the wires. -/
def wireSets (output : BitVec 32) (n : Nat) : List (Wire × BitVec 32) :=
  (.latch, 0) :: (List.range n).reverse.flatMap (bitSets output) ++ [(.latch, 1)]

/-- The outputs with the pin's changed -/
def outputWith (node : Node) (pin : Int) (value : BitVec 32) : BitVec 32 :=
  withBit node.data3 (pin - node.pinBase).toNat (decide (value ≠ 0))

def pinsOfNode (node : Node) : Nat := (node.pinMax - node.pinBase + 1).toNat

theorem myDigitalWrite_eq (node : Node) (pin : Int) (value : BitVec 32) : myDigitalWrite node pin value =
    ({ node with data3 := outputWith node pin value },
      callsFor node (wireSets (outputWith node pin value) (pinsOfNode node))) := by
  unfold callsFor wireSets
  rw [List.map_append, List.map_cons, List.map_flatMap]
  rfl

theorem levelsOf_bitSets (output : BitVec 32) {bit : Nat} (hlt : bit < 32) :
    levelsOf (bitSets output bit) = pulse (output.getLsbD bit) := by
  have hlevel : decide (output &&& 1#32 <<< bit ≠ 0) = output.getLsbD bit := by
    simp only [ne_eq, and_bit_eq_zero output hlt]
    cases output.getLsbD bit <;> rfl
  unfold levelsOf bitSets pulse
  rw [List.map_cons, hlevel]
  rfl

/-- The bits go out from the last to the first. -/
theorem levelsOf_wireSets (output : BitVec 32) {n : Nat} (hn : n ≤ 32) :
    levelsOf (wireSets output n) = load ((List.range n).reverse.map output.getLsbD) := by
  have hbit : ∀ bit ∈ (List.range n).reverse, levelsOf (bitSets output bit) = pulse (output.getLsbD bit) :=
    fun bit hmem => levelsOf_bitSets output
      (Nat.lt_of_lt_of_le (List.mem_range.mp (List.mem_reverse.mp hmem)) hn)
  unfold levelsOf at hbit ⊢
  unfold wireSets load clockIn
  rw [List.map_append, List.map_cons, List.map_flatMap, List.flatMap_map, List.flatMap_congr hbit]
  rfl

/-- What is to be seen of the outputs after a write -/
structure Written (lines : Wire → Nat) (w : Bench) (node : Node) (w' : Bench) : Prop where
  fitted : Fitted lines w'
  same : w'.node = node
  setup : w'.board.toSetup = w.board.toSetup
  clock : w'.chain.level .clock = false
  outputs : ∀ k < pinsOfNode node, w'.chain.outputs k = node.data3.getLsbD k

theorem write_written (hinj : ∀ u v, lines u = lines v → u = v) (h : Fitted lines w)
    (hclock : w.chain.level .clock = false) (hn : pinsOfNode w.node ≤ 32) (pin : Int) (value : BitVec 32) :
    ∃ w', Bench.ops lines (myDigitalWrite w.node pin value).2
        { w with node := (myDigitalWrite w.node pin value).1 } = some w' ∧
      Written lines w (myDigitalWrite w.node pin value).1 w' := by
  rw [myDigitalWrite_eq]
  have hfitted : Fitted lines { w with node := { w.node with data3 := outputWith w.node pin value } } :=
    ⟨h.names, h.output, h.driven, h.levels⟩
  obtain ⟨w', hops, hstays, hchain⟩ := ops_wires hinj hfitted
    (wireSets (outputWith w.node pin value) (pinsOfNode w.node))
  rw [levelsOf_wireSets _ hn] at hchain
  have hloaded := @loaded_load _ ((List.range (pinsOfNode w.node)).reverse.map
    (outputWith w.node pin value).getLsbD) hclock
  rw [← hchain] at hloaded
  refine ⟨w', hops, hstays.fitted, hstays.node, hstays.setup, hloaded.clock, fun k hk => ?_⟩
  have hrange : (List.range (pinsOfNode w.node))[k]? = some k := List.getElem?_range hk
  rw [hloaded.outputs, ← List.map_reverse, List.reverse_reverse, List.getElem?_map, hrange]
  rfl

/-- Before the last call of a write the outputs are the old ones. -/
theorem write_before (hinj : ∀ u v, lines u = lines v → u = v) (h : Fitted lines w)
    (hn : pinsOfNode w.node ≤ 32) (pin : Int) (value : BitVec 32) {before after : List Op}
    (hcalls : (myDigitalWrite w.node pin value).2 = before ++ after) (hafter : after ≠ []) :
    ∃ w', Bench.ops lines before { w with node := (myDigitalWrite w.node pin value).1 } = some w' ∧
      w'.chain.outputs = w.chain.outputs := by
  rw [myDigitalWrite_eq] at hcalls ⊢
  have hfitted : Fitted lines { w with node := { w.node with data3 := outputWith w.node pin value } } :=
    ⟨h.names, h.output, h.driven, h.levels⟩
  obtain ⟨first, rest, hsets, rfl, rfl⟩ := List.map_eq_append_iff.mp hcalls
  obtain ⟨w', hops, -, hchain⟩ := ops_wires hinj hfitted first
  refine ⟨w', hops, ?_⟩
  rw [hchain]
  refine @load_before ((List.range (pinsOfNode w.node)).reverse.map
    (outputWith w.node pin value).getLsbD) _ (levelsOf rest) ?_ (fun hnil => hafter ?_) _
  · rw [← levelsOf_wireSets _ hn, hsets]
    exact List.map_append
  · rw [List.map_eq_nil_iff.mp hnil]
    rfl

/-! ## Events -/

/-- Anything with other pins of the board -/
theorem op_apart (h : Fitted lines w) {op : Op} (hop : ∀ v, names w.board.toSetup (lines v) op = false)
    (hrun : w.op lines op = some w') : Fitted lines w' ∧ w'.node = w.node ∧
      w'.board.toSetup = w.board.toSetup ∧ w'.chain = w.chain := by
  obtain ⟨b', hb', rfl⟩ := Option.map_eq_some_iff.mp hrun
  have hgives := run_gives op w.board
  obtain ⟨b₁, hb₁, hbecomes⟩ : ∃ b₁, op.run w.board = some b₁ ∧
      Becomes w.board ((pinsOf w.board.gpio).step w.board.toSetup op) b₁ := by
    cases hw : op.within w.board.toSetup with
    | true =>
      rw [hw] at hgives
      exact hgives
    | false =>
      rw [hw] at hgives
      rw [show op.run w.board = none from hgives] at hb'
      cases hb'
  obtain rfl : b₁ = b' := Option.some.inj (hb₁.symm.trans hb')
  have happart := fun v => step_apart (hop v) (pinsOf w.board.gpio)
  have hmode : ∀ v, b₁.gpio.function (lines v) = w.board.gpio.function (lines v) := fun v =>
    (congrFun (congrArg Pins.mode hbecomes.pins) (lines v)).trans (happart v).1
  have hlatch : ∀ v, b₁.gpio.latch (lines v) = w.board.gpio.latch (lines v) := fun v =>
    (congrFun (congrArg Pins.level hbecomes.pins) (lines v)).trans (happart v).2
  have hlevel : ∀ v, b₁.gpio.level (lines v) = w.chain.level v := by
    intro v
    rw [h.levels v, Gpio.level, Gpio.level, hmode, hlatch, hbecomes.outside]
  refine ⟨⟨?_, ?_, ?_, ?_⟩, rfl, hbecomes.setup, observe_none hlevel⟩
  · rw [hbecomes.setup]
    exact h.names
  · exact fun v => (hmode v).trans (h.output v)
  · intro v
    rw [hbecomes.setup, ← h.driven v]
    exact driven_step (hmode v)
  · exact fun v => observe_level v

/-- What was last written to each pin of the node; none before the first write. -/
def lastWritten (node : Node) (last : Option (Nat → Bool)) : Event → Option (Nat → Bool)
  | .write pin value =>
    if node.covers pin then
      some (Function.update (last.getD fun _ => false) (pin - node.pinBase).toNat (decide (value ≠ 0)))
    else last
  | .board _ => last

/-- Whether the event is about no wire of the chain. -/
def Spares (lines : Wire → Nat) (s : Setup) : Event → Prop
  | .write _ _ => True
  | .board op => ∀ v, names s (lines v) op = false

/-- The chain holds what was last written. -/
structure Keeps (lines : Wire → Nat) (first : Node) (s : Setup) (last : Option (Nat → Bool)) (w : Bench) : Prop where
  fitted : Fitted lines w
  node : w.node = { first with data3 := w.node.data3 }
  setup : w.board.toSetup = s
  clock : w.chain.level .clock = false
  output : ∀ k < pinsOfNode first, w.node.data3.getLsbD k = (last.getD fun _ => false) k
  outputs : ∀ levels, last = some levels → ∀ k < pinsOfNode first, w.chain.outputs k = levels k

variable {first : Node} {s : Setup} {last : Option (Nat → Bool)} {e : Event}

theorem Keeps.covers (h : Keeps lines first s last w) (pin : Int) : w.node.covers pin = first.covers pin := by
  rw [h.node]
  rfl

theorem Keeps.pins (h : Keeps lines first s last w) : pinsOfNode w.node = pinsOfNode first := by
  rw [h.node]
  rfl

/-- The pin's index is one of the outputs. -/
theorem index_lt {pin : Int} (h : first.covers pin = true) : (pin - first.pinBase).toNat < pinsOfNode first := by
  obtain ⟨hlo, hhi⟩ := (Lib.Ranges.covers_iff ..).mp h
  unfold pinsOfNode
  omega

theorem keeps_event (hinj : ∀ u v, lines u = lines v → u = v) (hn : pinsOfNode first ≤ 32)
    (h : Keeps lines first s last w) (he : Spares lines s e) (hrun : w.event lines e = some w') :
    Keeps lines first s (lastWritten first last e) w' := by
  cases e with
  | board op =>
    have hop : w.op lines op = some w' := by
      refine Eq.trans ?_ hrun
      unfold Bench.event Bench.ops
      rw [show (Event.calls (.board op) w.node) = (w.node, [op]) from rfl, List.foldlM_cons]
      exact (bind_pure _).symm
    obtain ⟨hfitted, hnode, hsetup, hchain⟩ := op_apart h.fitted (h.setup ▸ he) hop
    refine ⟨hfitted, ?_, hsetup.trans h.setup, hchain ▸ h.clock, hnode ▸ h.output, hchain ▸ h.outputs⟩
    rw [hnode]
    exact h.node
  | write pin value =>
    unfold Bench.event Event.calls at hrun
    dsimp only at hrun
    unfold lastWritten
    dsimp only
    rw [h.covers] at hrun
    split at hrun
    case isFalse hc =>
      rw [if_neg hc]
      cases hrun
      exact h
    case isTrue hc =>
      rw [if_pos hc]
      obtain ⟨w₁, hw₁, hwritten⟩ := write_written hinj h.fitted h.clock (Nat.le_trans (Nat.le_of_eq h.pins) hn) pin value
      obtain rfl : w₁ = w' := Option.some.inj (hw₁.symm.trans hrun)
      have hindex := index_lt hc
      have hbase : w.node.pinBase = first.pinBase := by rw [h.node]
      have hbits : ∀ k < pinsOfNode first, w₁.node.data3.getLsbD k =
          Function.update (last.getD fun _ => false) (pin - first.pinBase).toNat (decide (value ≠ 0)) k := by
        intro k hk
        rw [hwritten.same, myDigitalWrite_eq, Function.update_apply, ← h.output k hk]
        dsimp only
        rw [outputWith, hbase, getLsbD_withBit _ _ (Nat.lt_of_lt_of_le hindex hn)]
      refine ⟨hwritten.fitted, ?_, hwritten.setup.trans h.setup, hwritten.clock, ?_, ?_⟩
      · rw [hwritten.same, myDigitalWrite_eq, h.node]
      · exact hbits
      · intro levels hlevels k hk
        cases hlevels
        rw [← hbits k hk, hwritten.same]
        refine hwritten.outputs k ?_
        rw [← hwritten.same, show pinsOfNode w₁.node = pinsOfNode first by
          rw [hwritten.same, myDigitalWrite_eq, h.node]; rfl]
        exact hk

theorem keeps_events (hinj : ∀ u v, lines u = lines v → u = v) (hn : pinsOfNode first ≤ 32)
    {es : List Event} (h : Keeps lines first s last w) (hes : ∀ e ∈ es, Spares lines s e)
    (hrun : w.events lines es = some w') : Keeps lines first s (es.foldl (lastWritten first) last) w' := by
  induction es generalizing w last with
  | nil =>
    cases hrun
    exact h
  | cons e es ih =>
    unfold Bench.events at hrun
    rw [List.foldlM_cons] at hrun
    obtain ⟨w₁, hevent, hrest⟩ := Option.bind_eq_some_iff.mp hrun
    exact ih (keeps_event hinj hn h (hes e List.mem_cons_self) hevent)
      (fun e he => hes e (List.mem_cons_of_mem _ he)) hrest

end Wires

/-! ## The set-up -/

/-- The pins that `sr595Setup` is given are on the chain's wires, and can be written. -/
structure Placed (lines : Wire → Nat) (b : Board) (dataPin clockPin latchPin : Int) : Prop where
  apart : ∀ u v, lines u = lines v → u = v
  data : numberOf b.toSetup dataPin = some (lines .data)
  clock : numberOf b.toSetup clockPin = some (lines .clock)
  latch : numberOf b.toSetup latchPin = some (lines .latch)
  small : ∀ v, lines v < 60
  writable : b.wiringPiMode = .gpioSys → ∀ v, b.sysFds (lines v) = true ∧ b.gpio.function (lines v) = fselOutp

section Setup
variable {lines : Wire → Nat} {w w' : Bench} {b b' : Board} {dataPin clockPin latchPin : Int}

/-- The chain is at the levels of the board whatever is done. -/
theorem ops_board {ops : List Op} (hlevels : ∀ v, w.chain.level v = w.board.gpio.level (lines v))
    (hrun : runAll ops w.board = some b') : ∃ w', w.ops lines ops = some w' ∧ w'.board = b' ∧
      w'.node = w.node ∧ ∀ v, w'.chain.level v = w'.board.gpio.level (lines v) := by
  induction ops generalizing w with
  | nil =>
    cases hrun
    exact ⟨w, rfl, rfl, rfl, hlevels⟩
  | cons op ops ih =>
    unfold runAll at hrun
    rw [List.foldlM_cons] at hrun
    obtain ⟨b₁, hop, hrest⟩ := Option.bind_eq_some_iff.mp hrun
    have hop' : w.op lines op = some { w with board := b₁, chain := observe lines b₁ w.chain } := by
      unfold Bench.op
      rw [hop]
      rfl
    obtain ⟨w', hw', hboard, hnode, hlast⟩ := ih
      (w := { w with board := b₁, chain := observe lines b₁ w.chain }) (fun v => observe_level v) hrest
    refine ⟨w', ?_, hboard, hnode, hlast⟩
    unfold Bench.ops
    rw [List.foldlM_cons, hop']
    exact hw'

theorem number_pin {s : Setup} {pin : Int} {n : Nat} (h : numberOf s pin = some n) :
    (BitVec.ofInt 32 pin).toInt = pin := by
  obtain ⟨h0, h64⟩ := onBoard_iff.mp (numberOf_some h).1
  rw [BitVec.toInt_ofInt]
  exact Int.bmod_eq_of_le (by omega) (by omega)

theorem step_write {s : Setup} {l : Pins} {pin : Int} {n : Nat} (hn : numberOf s pin = some n)
    (hdriven : l.driven s n = true) (value : BitVec 32) :
    l.step s (.digitalWrite pin value) = l.setLevel n (decide (value ≠ 0)) := by
  show l.drive s pin _ = _
  rw [Pins.drive, hn, Option.elim_some, if_pos hdriven]

theorem step_output {s : Setup} {l : Pins} {pin : Int} {n : Nat} (hn : numberOf s pin = some n)
    (hmode : s.wiringPiMode = .gpioSys → l.mode n = fselOutp) :
    l.step s (.pinMode pin .output) = l.setMode n fselOutp := by
  show l.atPin s pin _ = _
  unfold Pins.atPin
  split
  case isTrue hm =>
    refine Pins.ext (fun p => ?_) (fun p => rfl) fun p => rfl
    show l.mode p = Function.update l.mode n fselOutp p
    rw [Function.update_apply]
    split
    case isTrue hp => rw [hp, hmode hm]
    case isFalse => rfl
  case isFalse hm =>
    rw [hn]
    rfl

theorem mode_output {l : Pins} {m n : Nat} (h : l.mode n = fselOutp) : (l.setMode m fselOutp).mode n = fselOutp := by
  show Function.update l.mode m fselOutp n = fselOutp
  rw [Function.update_apply, h, ite_self]

theorem mode_self (l : Pins) (n : Nat) : (l.setMode n fselOutp).mode n = fselOutp :=
  Function.update_self (β := fun _ => BitVec 32) n fselOutp l.mode

theorem inTables_number {s : Setup} {pin : Int} {n limit : Nat} (h : numberOf s pin = some n) (hn : n < limit) :
    inTables s limit pin = true := by
  unfold inTables
  rw [h]
  simp [hn]

/-- The calls of `sr595Setup` -/
def setupCalls (dataPin clockPin latchPin : Int) : List Op := [
  .digitalWrite dataPin 0, .digitalWrite clockPin 0, .digitalWrite latchPin 1,
  .pinMode dataPin .output, .pinMode clockPin .output, .pinMode latchPin .output]

def setupLevels (lines : Wire → Nat) (l : Pins) : Pins :=
  ((l.setLevel (lines .data) false).setLevel (lines .clock) false).setLevel (lines .latch) true

/-- What they leave of the pins -/
def setupPins (lines : Wire → Nat) (l : Pins) : Pins :=
  (((setupLevels lines l).setMode (lines .data) fselOutp).setMode (lines .clock) fselOutp).setMode
    (lines .latch) fselOutp

theorem setupPins_mode (l : Pins) (v : Wire) : (setupPins lines l).mode (lines v) = fselOutp := by
  cases v with
  | data => exact mode_output (mode_output (mode_self _ _))
  | clock => exact mode_output (mode_self _ _)
  | latch => exact mode_self _ _

theorem setupPins_clock (hinj : ∀ u v, lines u = lines v → u = v) (l : Pins) :
    (setupPins lines l).level (lines .clock) = false := by
  have hne : lines .clock ≠ lines .latch := fun he => nomatch hinj _ _ he
  show Function.update (Function.update (Function.update l.level (lines .data) false) (lines .clock) false)
    (lines .latch) true (lines .clock) = false
  rw [Function.update_of_ne hne, Function.update_self]

theorem within_output {s : Setup} {pin : Int} {n : Nat} (h : numberOf s pin = some n) (hn : n < 60) :
    (Op.pinMode pin .output).within s = true := by
  show (inTables s 60 pin && takes s (clockInTables s .output) pin) = true
  unfold takes
  rw [inTables_number h hn, h, Option.all_some]
  exact Bool.or_true _

theorem setup_becomes (h : Placed lines b dataPin clockPin latchPin) :
    ∃ b', runAll (setupCalls dataPin clockPin latchPin) b = some b' ∧
      Becomes b (setupPins lines (pinsOf b.gpio)) b' := by
  have hdriven : ∀ v, (pinsOf b.gpio).driven b.toSetup (lines v) = true := by
    intro v
    by_cases hm : b.wiringPiMode = .gpioSys
    · have hmode : (pinsOf b.gpio).mode (lines v) = fselOutp := (h.writable hm v).2
      rw [driven_sys hm, (h.writable hm v).1, decide_eq_true hmode]
      rfl
    · exact driven_mapped hm _
  have hwithin : (setupCalls dataPin clockPin latchPin).all (Op.within b.toSetup) = true := by
    simp only [setupCalls, List.all_cons, List.all_nil, Bool.and_true, Bool.and_eq_true]
    exact ⟨inTables_number h.data (numberOf_lt h.data), inTables_number h.clock (numberOf_lt h.clock),
      inTables_number h.latch (numberOf_lt h.latch), within_output h.data (h.small _),
      within_output h.clock (h.small _), within_output h.latch (h.small _)⟩
  have hpins : (pinsOf b.gpio).runAll b.toSetup (setupCalls dataPin clockPin latchPin) =
      setupPins lines (pinsOf b.gpio) := by
    have hmode : b.wiringPiMode = .gpioSys → ∀ v, (setupLevels lines (pinsOf b.gpio)).mode (lines v) = fselOutp :=
      fun hm v => (h.writable hm v).2
    have hlevels : (((pinsOf b.gpio).step b.toSetup (.digitalWrite dataPin 0)).step b.toSetup
        (.digitalWrite clockPin 0)).step b.toSetup (.digitalWrite latchPin 1) =
        setupLevels lines (pinsOf b.gpio) := by
      rw [step_write h.data (hdriven .data),
        step_write (l := (pinsOf b.gpio).setLevel _ _) h.clock (hdriven .clock),
        step_write (l := ((pinsOf b.gpio).setLevel _ _).setLevel _ _) h.latch (hdriven .latch)]
      rfl
    unfold Pins.runAll setupCalls
    simp only [List.foldl_cons, List.foldl_nil]
    rw [hlevels, step_output h.data fun hm => hmode hm .data,
      step_output h.clock fun hm => mode_output (hmode hm .clock),
      step_output h.latch fun hm => mode_output (mode_output (hmode hm .latch))]
    rfl
  have hgives := runAll_gives (setupCalls dataPin clockPin latchPin) b
  rw [hwithin, hpins] at hgives
  exact hgives

theorem setup_keeps {nodes : List Node} {pinBase numPins : Int} {node : Node} {calls : List Op} {c : Chain}
    (h : Placed lines b dataPin clockPin latchPin)
    (hsetup : sr595Setup nodes pinBase numPins dataPin clockPin latchPin = some (node, calls)) :
    ∃ w₀, Bench.ops lines calls ⟨node, b, observe lines b c⟩ = some w₀ ∧
      Keeps lines node b.toSetup none w₀ := by
  obtain ⟨new, -, hpair⟩ := Option.map_eq_some_iff.mp hsetup
  obtain ⟨rfl, rfl⟩ := Prod.mk.inj hpair
  obtain ⟨b', hrun, hbecomes⟩ := setup_becomes h
  obtain ⟨w₀, hops, hboard, hnode, hlevels⟩ := ops_board (w := ⟨_, b, observe lines b c⟩)
    (fun v => observe_level v) hrun
  refine ⟨w₀, hops, ⟨fun v => ?_, fun v => ?_, fun v => ?_, hlevels⟩, ?_, ?_, ?_, ?_, nofun⟩
  · rw [hnode, hboard, hbecomes.setup]
    cases v with
    | data => exact (congrArg _ (number_pin h.data)).trans h.data
    | clock => exact (congrArg _ (number_pin h.clock)).trans h.clock
    | latch => exact (congrArg _ (number_pin h.latch)).trans h.latch
  · rw [hboard]
    exact (congrFun (congrArg Pins.mode hbecomes.pins) (lines v)).trans (setupPins_mode _ v)
  · rw [hboard, hbecomes.setup, hbecomes.pins]
    by_cases hm : b.wiringPiMode = .gpioSys
    · rw [driven_sys hm, (h.writable hm v).1, decide_eq_true (setupPins_mode _ v)]
      rfl
    · exact driven_mapped hm _
  · rw [hnode]
  · rw [hboard, hbecomes.setup]
  · have hlatch : b'.gpio.latch (lines .clock) = false :=
      (congrFun (congrArg Pins.level hbecomes.pins) (lines .clock)).trans (setupPins_clock h.apart _)
    have hmode : b'.gpio.function (lines .clock) = fselOutp :=
      (congrFun (congrArg Pins.mode hbecomes.pins) (lines .clock)).trans (setupPins_mode _ .clock)
    rw [hlevels, hboard, Gpio.level, if_pos hmode, hlatch]
  · intro k hk
    rw [hnode]
    exact BitVec.getLsbD_zero

/-- **The outputs hold what their pins were written.** A chain whose wires are on three pins
of the board, set up and then written to in any order, with anything done to the board's
other pins in between: after the first write each output is what its pin was last written,
low if it was not, and before the last call of a write no output has changed. -/
theorem outputs_hold {nodes : List Node} {pinBase numPins : Int} {node : Node} {calls : List Op} {c : Chain}
    {w₀ : Bench} {es : List Event} (h : Placed lines b dataPin clockPin latchPin)
    (hcounted : Counted pinBase numPins) (hn : numPins ≤ 32)
    (hsetup : sr595Setup nodes pinBase numPins dataPin clockPin latchPin = some (node, calls))
    (hcalls : Bench.ops lines calls ⟨node, b, observe lines b c⟩ = some w₀)
    (hes : ∀ e ∈ es, Spares lines b.toSetup e) (hrun : w₀.events lines es = some w) :
    (∀ levels, es.foldl (lastWritten node) none = some levels →
      ∀ k : Nat, k < numPins → w.chain.outputs k = levels k) ∧
    ∀ pin value before after, (myDigitalWrite w.node pin value).2 = before ++ after → after ≠ [] →
      ∃ w', Bench.ops lines before { w with node := (myDigitalWrite w.node pin value).1 } = some w' ∧
        w'.chain.outputs = w.chain.outputs := by
  obtain ⟨w₁, hw₁, hkeeps⟩ := setup_keeps (c := c) h hsetup
  obtain rfl : w₁ = w₀ := Option.some.inj (hw₁.symm.trans hcalls)
  have hpins : pinsOfNode node = numPins.toNat := by
    obtain ⟨new, hnew, hpair⟩ := Option.map_eq_some_iff.mp hsetup
    obtain ⟨rfl, -⟩ := Prod.mk.inj hpair
    rw [(wiringPiNewNode_some hcounted hnew).1]
    unfold pinsOfNode
    dsimp only
    congr 1
    omega
  have hlast := keeps_events h.apart (by omega) hkeeps hes hrun
  constructor
  · intro levels hlevels k hk
    exact hlast.outputs levels hlevels k (by omega)
  · intro pin value before after hsplit hafter
    exact write_before h.apart hlast.fitted (by rw [hlast.pins]; omega) pin value hsplit hafter

/-! ## Eight outputs on the board's first pins -/

def ledLines : Wire → Nat
  | .data => 17
  | .clock => 18
  | .latch => 27

theorem ledLines_placed : Placed ledLines (freshBoard .pins) 0 1 2 where
  apart u v h := by cases u <;> cases v <;> first | rfl | exact absurd h (by decide)
  data := rfl
  clock := rfl
  latch := rfl
  small v := by cases v <;> decide
  writable := nofun

def ledEvents : List Event := [.write 103 1, .board (.digitalWrite 3 1), .write 100 1, .write 103 0]

def darkChain : Chain := ⟨fun _ => false, fun _ => false, fun _ => false⟩

def ledNode : Node := ⟨100, 107, 0, 0, 1, 2, 0, .dummy⟩

theorem outputs_hold_led : ∃ w₀ w, Bench.ops ledLines (setupCalls 0 1 2)
      ⟨ledNode, freshBoard .pins, observe ledLines (freshBoard .pins) darkChain⟩ = some w₀ ∧
    w₀.events ledLines ledEvents = some w ∧
    w.chain.outputs 0 = true ∧ w.chain.outputs 1 = false ∧ w.chain.outputs 3 = false := by
  have hsetup : sr595Setup [] 100 8 0 1 2 = some (ledNode, setupCalls 0 1 2) := rfl
  obtain ⟨w₀, hw₀, -⟩ := setup_keeps (c := darkChain) ledLines_placed hsetup
  have hsome : ((Bench.ops ledLines (setupCalls 0 1 2) ⟨ledNode, freshBoard .pins,
      observe ledLines (freshBoard .pins) darkChain⟩).bind (Bench.events ledLines ledEvents)).isSome = true := by
    decide +kernel
  rw [hw₀, Option.bind_some] at hsome
  cases hrun : w₀.events ledLines ledEvents with
  | none =>
    rw [hrun] at hsome
    cases hsome
  | some w =>
    have hes : ∀ e ∈ ledEvents, Spares ledLines (freshBoard .pins).toSetup e := by
      intro e he
      simp only [ledEvents, List.mem_cons, List.not_mem_nil, or_false] at he
      rcases he with rfl | rfl | rfl | rfl
      · trivial
      · intro v
        cases v <;> decide
      · trivial
      · trivial
    have h := (outputs_hold ledLines_placed ⟨by decide, by decide⟩ (by decide) hsetup hw₀ hes hrun).1 _ rfl
    exact ⟨w₀, w, hw₀, hrun, h 0 (by decide), h 1 (by decide), h 3 (by decide)⟩

end Setup

end SmartPrince.Wiring.Sr595Soundness

import SmartPrince.Wiring.ExpanderSoundness

/-! # What is asked of the pins is what the chips hold

The outputs of a chip are written from the copy that its node keeps, eight at
a time. The copy has every setting that was asked for, so that a write for one
pin repeats those of its neighbours; this holds as long as a chip is not set
up twice, which the code does not check. -/
namespace SmartPrince.Wiring.SettingSoundness
open SmartPrince.Lib.Register SmartPrince.Lib.Run
open SmartPrince.Wiring.Nodes SmartPrince.Wiring.Expanders SmartPrince.Wiring.ExpanderSoundness

variable {β : Type} {B : Bus β} {chip : Line → Driver} {content : β → Content}

/-! ## One call of a node's function -/

/-- The setting `r` of the pin at `p` became `on`, and that of no other pin changed but
to what the node had kept of it. -/
structure Performed (c c' : Content) (node node' : Node) (p : Place) (r : Role) (on : Bool) : Prop where
  content : c' = c.set p.line r p.bankB
    (withBit (if r = .latch then shadow node p.bankB else c p.line r p.bankB) p.bit on)
  shadow : ∀ b, shadow node' b =
    if r = .latch ∧ b = p.bankB then withBit (shadow node b) p.bit on else shadow node b

section Call
variable (hw : Wired B chip content) {node : Node} {pin : Int} (on : Bool) (bus : β)
include hw

theorem modifyReg_content {r : Role} {b : Bool} {reg : BitVec 8} (hr : r ≠ .latch)
    (hreg : register (chip (Node.line node)) r b = some reg) {bit : Nat} (hbit : bit < 8) :
    content (modifyReg B reg bit on node bus) = (content bus).set (Node.line node) r b
      (withBit (content bus (Node.line node) r b) bit on) := by
  unfold modifyReg
  dsimp only
  rw [hw.writeReg _ _ r b reg _ hr hreg, hw.readReg_keeps, setWidth_withBit (by decide) _ _ hbit,
    hw.readReg _ _ r b reg hreg, BitVec.setWidth_setWidth_of_le _ (by decide), BitVec.setWidth_eq]

theorem modify8_performed {r : Role} {reg : BitVec 8} (hr : r ≠ .latch)
    (hreg : register (chip (Node.line node)) r false = some reg) (hindex : index node pin < 8) :
    Performed (content bus) (content (modify8 B reg on node pin bus)) node node
      (nodePlace pin node) r on := by
  have hbank : (nodePlace pin node).bankB = false := decide_eq_false (Nat.not_le.mpr hindex)
  have hbit : (nodePlace pin node).bit = index node pin := Nat.mod_eq_of_lt hindex
  refine ⟨?_, fun b => (if_neg fun h => hr h.1).symm⟩
  rw [hbank, hbit, if_neg hr, modify8, modifyReg_content hw on bus hr hreg hindex]
  rfl

theorem modify16_performed {r : Role} {regA regB : BitVec 8} (hr : r ≠ .latch)
    (hregA : register (chip (Node.line node)) r false = some regA)
    (hregB : register (chip (Node.line node)) r true = some regB) :
    Performed (content bus) (content (modify16 B regA regB on node pin bus)) node node
      (nodePlace pin node) r on := by
  unfold modify16
  split
  · rename_i hindex
    exact modify8_performed hw on bus hr hregA hindex
  · rename_i hindex
    have hbank : (nodePlace pin node).bankB = true := decide_eq_true (Nat.le_of_not_lt hindex)
    refine ⟨?_, fun b => (if_neg fun h => hr h.1).symm⟩
    rw [hbank, if_neg hr, modifyReg_content hw on bus hr hregB (Nat.mod_lt _ (by decide))]
    rfl

omit hw in
/-- A write from `data2` or `data3`, whichever keeps the bank. -/
theorem write_performed {new : Node} {bus' : β} (old : BitVec 32)
    (hold : old.setWidth 8 = shadow node (nodePlace pin node).bankB)
    (hcontent : content bus' = (content bus).set (Node.line node) .latch (nodePlace pin node).bankB
      ((withBit old (nodePlace pin node).bit on).setWidth 8))
    (hnew : ∀ b, shadow new b = if b = (nodePlace pin node).bankB then
      (withBit old (nodePlace pin node).bit on).setWidth 8 else shadow node b) :
    Performed (content bus) (content bus') node new (nodePlace pin node) .latch on := by
  have hbit : (nodePlace pin node).bit < 8 := Nat.mod_lt _ (by decide)
  have hwith := setWidth_withBit (by decide : 8 ≤ 32) old on hbit
  rw [hold] at hwith
  refine ⟨?_, fun b => ?_⟩
  · rw [hcontent, hwith, if_pos rfl]
    rfl
  · rw [hnew b, hwith]
    by_cases hb : b = (nodePlace pin node).bankB
    · rw [if_pos hb, if_pos ⟨rfl, hb⟩, hb]
    · rw [if_neg hb, if_neg fun h => hb h.2]

theorem write8_performed {reg : BitVec 8} (hreg : port (chip (Node.line node)) false = some reg)
    (hindex : index node pin < 8) :
    Performed (content bus) (content (write8 B reg on node pin bus).2) node
      (write8 B reg on node pin bus).1 (nodePlace pin node) .latch on := by
  have hbank : (nodePlace pin node).bankB = false := decide_eq_false (Nat.not_le.mpr hindex)
  refine write_performed on bus node.data2 (by rw [hbank]; rfl) ?_ fun b => ?_
  · rw [hbank]
    exact hw.writePort _ _ _ _ _ hreg
  · rw [hbank]
    cases b <;> rfl

theorem write16_performed {regA regB : BitVec 8}
    (hregA : port (chip (Node.line node)) false = some regA)
    (hregB : port (chip (Node.line node)) true = some regB) :
    Performed (content bus) (content (write16 B regA regB on node pin bus).2) node
      (write16 B regA regB on node pin bus).1 (nodePlace pin node) .latch on := by
  unfold write16
  split
  · rename_i hindex
    exact write8_performed hw on bus hregA hindex
  · rename_i hindex
    have hbank : (nodePlace pin node).bankB = true := decide_eq_true (Nat.le_of_not_lt hindex)
    refine write_performed on bus node.data3 (by rw [hbank]; rfl) ?_ fun b => ?_
    · rw [hbank]
      exact hw.writePort _ _ _ _ _ hregB
    · rw [hbank]
      cases b <;> rfl

theorem pcf8574_performed (hchip : chip (Node.line node) = .pcf8574) (hindex : index node pin < 8) :
    Performed (content bus) (content (Pcf8574.writePort B on node pin bus).2) node
      (Pcf8574.writePort B on node pin bus).1 (nodePlace pin node) .latch on := by
  have hbank : (nodePlace pin node).bankB = false := decide_eq_false (Nat.not_le.mpr hindex)
  refine write_performed on bus node.data2 (by rw [hbank]; rfl) ?_ fun b => ?_
  · rw [hbank]
    exact hw.write _ _ _ hchip
  · rw [hbank]
    cases b <;> rfl

end Call

/-- The number of pins of a chip. -/
def pins : Driver → Nat
  | .dummy => 0
  | .mcp23008 | .mcp23s08 | .pcf8574 => 8
  | .mcp23016 | .mcp23017 | .mcp23s17 => 16

/-- **Each function of a node does what is asked of the pin, and no more.** -/
theorem nodeOp_effect (hw : Wired B chip content) {node : Node} (pin : Int)
    (hchip : chip (Node.line node) = node.driver) (hindex : index node pin < pins node.driver)
    (op : Op) (bus : β) :
    match effect node.driver op with
    | none => nodeOp B op node pin bus = (node, bus)
    | some (r, on) => Performed (content bus) (content (nodeOp B op node pin bus).2) node
        (nodeOp B op node pin bus).1 (nodePlace pin node) r on := by
  cases hd : node.driver with
  | dummy =>
    rw [hd] at hindex
    cases hindex
  | mcp23008 | mcp23s08 =>
    rw [hd] at hchip hindex
    cases op with
    | pinMode mode =>
      simp only [effect, nodeOp, nodePinMode, hd]
      exact modify8_performed hw _ bus nofun (by rw [hchip]; rfl) hindex
    | pullUpDnControl pud =>
      simp only [effect, nodeOp, nodePullUpDnControl, hd]
      exact modify8_performed hw _ bus nofun (by rw [hchip]; rfl) hindex
    | digitalWrite value =>
      simp only [effect, nodeOp, nodeDigitalWrite, hd]
      exact write8_performed hw _ bus (by rw [hchip]; rfl) hindex
  | mcp23017 | mcp23s17 =>
    rw [hd] at hchip
    cases op with
    | pinMode mode =>
      simp only [effect, nodeOp, nodePinMode, hd]
      exact modify16_performed hw _ bus nofun (by rw [hchip]; rfl) (by rw [hchip]; rfl)
    | pullUpDnControl pud =>
      simp only [effect, nodeOp, nodePullUpDnControl, hd]
      exact modify16_performed hw _ bus nofun (by rw [hchip]; rfl) (by rw [hchip]; rfl)
    | digitalWrite value =>
      simp only [effect, nodeOp, nodeDigitalWrite, hd]
      exact write16_performed hw _ bus (by rw [hchip]; rfl) (by rw [hchip]; rfl)
  | mcp23016 =>
    rw [hd] at hchip
    cases op with
    | pinMode mode =>
      simp only [effect, nodeOp, nodePinMode, hd]
      exact modify16_performed hw _ bus nofun (by rw [hchip]; rfl) (by rw [hchip]; rfl)
    | pullUpDnControl pud => simp only [effect, nodeOp, nodePullUpDnControl, hd]
    | digitalWrite value =>
      simp only [effect, nodeOp, nodeDigitalWrite, hd]
      exact write16_performed hw _ bus (by rw [hchip]; rfl) (by rw [hchip]; rfl)
  | pcf8574 =>
    rw [hd] at hchip hindex
    cases op with
    | pinMode mode =>
      simp only [effect, nodeOp, nodePinMode, hd]
      exact pcf8574_performed hw _ bus hchip hindex
    | pullUpDnControl pud => simp only [effect, nodeOp, nodePullUpDnControl, hd]
    | digitalWrite value =>
      simp only [effect, nodeOp, nodeDigitalWrite, hd]
      exact pcf8574_performed hw _ bus hchip hindex

/-- A function that has nothing to do does nothing. -/
theorem nodeOp_none {node : Node} {op : Op} (h : effect node.driver op = none) (pin : Int) (bus : β) :
    nodeOp B op node pin bus = (node, bus) := by
  cases hd : node.driver with
  | dummy =>
    cases op with
    | pinMode mode => simp only [nodeOp, nodePinMode, hd]
    | pullUpDnControl pud => simp only [nodeOp, nodePullUpDnControl, hd]
    | digitalWrite value => simp only [nodeOp, nodeDigitalWrite, hd]
  | mcp23016 | pcf8574 =>
    cases op with
    | pullUpDnControl pud => simp only [nodeOp, nodePullUpDnControl, hd]
    | pinMode mode | digitalWrite value =>
      rw [hd] at h
      cases h
  | _ =>
    rw [hd] at h
    cases op <;> cases h

/-! ## Runs -/

/-- A set-up is for a chip of its kind that was not set up before, with ints for its pins. -/
structure Proper (chip : Line → Driver) (w : Watched β) (e : Event) : Prop where
  counted : e.Counted
  chip : ∀ u, e = .setup u → u.opened = true → u.driver ≠ .dummy →
    chip u.line = u.driver ∧ ∀ n ∈ w.globals.nodes, n.driver ≠ .dummy → Node.line n ≠ u.line

theorem proper_op (w : Watched β) (op : Op) (pin : Int) : Proper chip w (.op op pin) := ⟨trivial, nofun⟩

/-- The chips hold what the ledger says, and so do the nodes' copies. -/
structure Kept (chip : Line → Driver) (content : β → Content) (w : Watched β) : Prop where
  placed : Placed w
  chips : ∀ n ∈ w.globals.nodes, n.driver ≠ .dummy →
    chip (Node.line n) = n.driver ∧ n.pinMax = n.pinBase + pins n.driver - 1
  lines : w.globals.nodes.Pairwise fun a b =>
    a.driver ≠ .dummy → b.driver ≠ .dummy → Node.line a ≠ Node.line b
  dummies : ∀ pin n, wiringPiFindNode w.globals.nodes pin = some n → n.driver = .dummy →
    ∀ r, w.ledger.setting pin r = none
  held : ∀ pin n r on, wiringPiFindNode w.globals.nodes pin = some n →
    w.ledger.setting pin r = some on → (content w.globals.bus).at (nodePlace pin n) r = on
  copied : ∀ pin n on, wiringPiFindNode w.globals.nodes pin = some n →
    w.ledger.setting pin .latch = some on →
      (shadow n (nodePlace pin n).bankB).getLsbD (nodePlace pin n).bit = on

section Kept
variable {w w' : Watched β}

theorem kept_started (returnCodes : Bool) (bus : β) : Kept chip content (started returnCodes bus) :=
  ⟨placed_started returnCodes bus, fun _ h => (List.not_mem_nil h).elim, List.Pairwise.nil,
    fun _ _ h => (nomatch h), fun _ _ _ _ h => (nomatch h), fun _ _ _ h => (nomatch h)⟩

/-- A pin's index is one of its chip's. -/
theorem Kept.index_lt (h : Kept chip content w) {pin : Int} {n : Node}
    (hfound : wiringPiFindNode w.globals.nodes pin = some n) (hdriver : n.driver ≠ .dummy) :
    index n pin < pins n.driver := by
  obtain ⟨hmem, hcovers⟩ := findNode_mem hfound
  obtain ⟨hlo, hhi⟩ := Lib.Ranges.covers_iff.mp hcovers
  have hmax := (h.chips n hmem hdriver).2
  unfold index
  omega

theorem pins_le (d : Driver) : pins d ≤ 16 := by
  cases d <;> decide

/-- Two pins of a chip differ in the bank or in the bit. -/
theorem Kept.bit_ne (h : Kept chip content w) {pin q : Int} {n : Node}
    (hpin : wiringPiFindNode w.globals.nodes pin = some n)
    (hq : wiringPiFindNode w.globals.nodes q = some n) (hdriver : n.driver ≠ .dummy) (hne : q ≠ pin)
    (hbank : (nodePlace q n).bankB = (nodePlace pin n).bankB) :
    (nodePlace q n).bit ≠ (nodePlace pin n).bit := by
  have hp := h.index_lt hpin hdriver
  have hq' := h.index_lt hq hdriver
  have hle := pins_le n.driver
  have hlop := (Lib.Ranges.covers_iff.mp (findNode_mem hpin).2).1
  have hloq := (Lib.Ranges.covers_iff.mp (findNode_mem hq).2).1
  have hindex : index n q ≠ index n pin := by
    unfold index
    omega
  have hbank' : 8 ≤ index n q ↔ 8 ≤ index n pin := decide_eq_decide.mp hbank
  change index n q % 8 ≠ index n pin % 8
  omega

/-- Chips on one line are the same node. -/
theorem Kept.same_node (h : Kept chip content w) {a b : Node} (ha : a ∈ w.globals.nodes)
    (hb : b ∈ w.globals.nodes) (hda : a.driver ≠ .dummy) (hdb : b.driver ≠ .dummy)
    (hline : Node.line a = Node.line b) : a = b := by
  have hall := List.Pairwise.forall_of_forall_of_flip
    (R := fun x y : Node => x.driver ≠ .dummy → y.driver ≠ .dummy → Node.line x = Node.line y → x = y)
    (fun _ _ _ _ _ => rfl) (h.lines.imp fun hxy hx hy he => absurd he (hxy hx hy))
    (h.lines.imp fun hxy hy hx he => absurd he.symm (hxy hx hy))
  exact hall ha hb hda hdb hline

/-- What is found after a function of the node at `pin` left it as `new`. -/
theorem found_after (h : Placed w) {pin q : Int} {node new n : Node}
    (hfound : wiringPiFindNode w.globals.nodes pin = some node) (hsame : SameChip node new)
    (hq : wiringPiFindNode (setNode pin new w.globals.nodes) q = some n) :
    (n = new ∧ wiringPiFindNode w.globals.nodes q = some node) ∨
      (wiringPiFindNode w.globals.nodes q = some n ∧ node.covers q = false) := by
  rw [findNode_set h.apart hfound hsame] at hq
  cases hcovers : node.covers q with
  | true =>
    rw [hcovers, if_pos rfl] at hq
    exact .inl ⟨(Option.some.inj hq).symm,
      (Lib.Ranges.find_iff h.apart).mpr ⟨(findNode_mem hfound).1, hcovers⟩⟩
  | false =>
    rw [hcovers, if_neg Bool.false_ne_true] at hq
    exact .inr ⟨hq, rfl⟩

theorem Content.at_set (c : Content) (p q : Place) (r r' : Role) (v : BitVec 8) :
    (c.set p.line r p.bankB v).at q r' =
      if q.line = p.line ∧ r' = r ∧ q.bankB = p.bankB then v.getLsbD q.bit else c.at q r' := by
  unfold Content.at Content.set
  split <;> rfl

section Performed
variable {pin : Int} {node new : Node} {bus : β} {r : Role} {on : Bool} (h : Kept chip content w)
  (hfound : wiringPiFindNode w.globals.nodes pin = some node) (hdriver : node.driver ≠ .dummy)
  (hdone : Performed (content w.globals.bus) (content bus) node new (nodePlace pin node) r on)
include h hfound hdriver hdone

/-- The register of the pin has the settings of its neighbours. -/
theorem held_performed {q : Int} {n : Node} {r' : Role} {on' : Bool}
    (hq : wiringPiFindNode w.globals.nodes q = some n)
    (hset : (w.ledger.put pin r on).setting q r' = some on') :
    (content bus).at (nodePlace q n) r' = on' := by
  have hbit : (nodePlace pin node).bit < 8 := Nat.mod_lt _ (by decide)
  have hcond : (w.ledger.put pin r on).setting q r' =
    if q = pin ∧ r' = r then some on else w.ledger.setting q r' := rfl
  rw [hcond] at hset
  rw [hdone.content, Content.at_set]
  by_cases hpin : q = pin ∧ r' = r
  · obtain ⟨rfl, rfl⟩ := hpin
    rw [if_pos ⟨rfl, rfl⟩] at hset
    obtain rfl : node = n := Option.some.inj (hfound.symm.trans hq)
    rw [if_pos ⟨rfl, rfl, rfl⟩, getLsbD_withBit _ _ hbit, if_pos rfl]
    exact Option.some.inj hset
  · rw [if_neg hpin] at hset
    have hqdriver : n.driver ≠ .dummy := fun hd => by
      rw [h.dummies q n hq hd r'] at hset
      cases hset
    split
    · rename_i hsite
      obtain ⟨hline, rfl, hbank⟩ := hsite
      obtain rfl : n = node :=
        h.same_node (findNode_mem hq).1 (findNode_mem hfound).1 hqdriver hdriver hline
      have hne : q ≠ pin := fun he => hpin ⟨he, rfl⟩
      rw [getLsbD_withBit _ _ hbit, if_neg (h.bit_ne hfound hq hdriver hne hbank)]
      by_cases hlatch : r' = .latch
      · subst hlatch
        rw [if_pos rfl, ← hbank]
        exact h.copied q n on' hq hset
      · rw [if_neg hlatch, ← hbank]
        exact h.held q n r' on' hq hset
    · exact h.held q n r' on' hq hset

/-- So does the copy that the node keeps. -/
theorem copied_performed (hsame : SameChip node new) {q : Int} {on' : Bool}
    (hq : wiringPiFindNode w.globals.nodes q = some node)
    (hset : (w.ledger.put pin r on).setting q .latch = some on') :
    (shadow new (nodePlace q new).bankB).getLsbD (nodePlace q new).bit = on' := by
  have hbit : (nodePlace pin node).bit < 8 := Nat.mod_lt _ (by decide)
  have hcond : (w.ledger.put pin r on).setting q .latch =
    if q = pin ∧ Role.latch = r then some on else w.ledger.setting q .latch := rfl
  rw [hcond] at hset
  rw [nodePlace_same hsame, hdone.shadow]
  by_cases hpin : q = pin ∧ Role.latch = r
  · obtain ⟨rfl, rfl⟩ := hpin
    rw [if_pos ⟨rfl, rfl⟩] at hset
    rw [if_pos ⟨rfl, rfl⟩, getLsbD_withBit _ _ hbit, if_pos rfl]
    exact Option.some.inj hset
  · rw [if_neg hpin] at hset
    split
    · rename_i hsite
      obtain ⟨rfl, hbank⟩ := hsite
      have hne : q ≠ pin := fun he => hpin ⟨he, rfl⟩
      rw [getLsbD_withBit _ _ hbit, if_neg (h.bit_ne hfound hq hdriver hne hbank)]
      exact h.copied q node on' hq hset
    · exact h.copied q node on' hq hset

theorem kept_performed (hsame : SameChip node new)
    (hplaced : Placed ⟨{ w.globals with nodes := setNode pin new w.globals.nodes, bus },
      w.ledger.put pin r on⟩) :
    Kept chip content ⟨{ w.globals with nodes := setNode pin new w.globals.nodes, bus },
      w.ledger.put pin r on⟩ := by
  have hline : Node.line new = Node.line node := congrArg Place.line (nodePlace_same hsame pin)
  have hother : ∀ q r', node.covers q = false →
      (w.ledger.put pin r on).setting q r' = w.ledger.setting q r' := fun q r' hq =>
    if_neg fun he => by
      rw [he.1, (findNode_mem hfound).2] at hq
      cases hq
  refine ⟨hplaced, fun n hn hd => ?_, ?_, fun q n hq hd r' => ?_, fun q n r' on' hq hset => ?_,
    fun q n on' hq hset => ?_⟩
  · rcases mem_setNode hn with rfl | hn
    · rw [hline, hsame.driver, hsame.pinMax, hsame.pinBase]
      exact h.chips node (findNode_mem hfound).1 hdriver
    · exact h.chips n hn hd
  · exact pairwise_setNode (S := fun a b => a.1 ≠ .dummy → b.1 ≠ .dummy → a.2 ≠ b.2)
      (fun n => (n.driver, Node.line n)) (fun _ _ => Iff.rfl) hfound
      (congrArg₂ Prod.mk hsame.driver hline) h.lines
  · rcases found_after h.placed hfound hsame hq with ⟨rfl, -⟩ | ⟨hq, hout⟩
    · exact absurd (hsame.driver.symm.trans hd) hdriver
    · exact (hother q r' hout).trans (h.dummies q n hq hd r')
  · rcases found_after h.placed hfound hsame hq with ⟨rfl, hold⟩ | ⟨hold, -⟩
    · rw [nodePlace_same hsame]
      exact held_performed h hfound hdriver hdone hold hset
    · exact held_performed h hfound hdriver hdone hold hset
  · rcases found_after h.placed hfound hsame hq with ⟨rfl, hold⟩ | ⟨hold, hout⟩
    · exact copied_performed h hfound hdriver hdone hsame hold hset
    · exact h.copied q n on' hold ((hother q .latch hout).symm.trans hset)

end Performed

theorem kept_op (hw : Wired B chip content) (h : Kept chip content w) (op : Op) (pin : Int) :
    Kept chip content ⟨op.run B pin w.globals, w.ledger.ask op pin⟩ := by
  have hplaced := placed_op B h.placed op pin
  rcases op.run_cases B pin w.globals with ⟨hrun, hnone⟩ | ⟨node, hfound, hrun⟩
  · have hplace : w.ledger.place pin = none := by
      by_contra hsome
      have hle := h.placed.offBoard hsome
      rcases hnone with hboard | hnone
      · have hlt : pin < 64 := of_decide_eq_true (Bool.and_eq_true_iff.mp hboard).2
        omega
      · rw [h.placed.place, hnone] at hsome
        exact hsome rfl
    have hask : w.ledger.ask op pin = w.ledger := by
      unfold Ledger.ask
      rw [hplace]
    rw [hrun, hask]
    exact h
  · have hplace : w.ledger.place pin = some (nodePlace pin node) := by
      rw [h.placed.place, hfound]
      rfl
    cases heffect : effect node.driver op with
    | none =>
      have hask : w.ledger.ask op pin = w.ledger := by
        unfold Ledger.ask
        rw [hplace]
        dsimp only [nodePlace]
        rw [heffect]
      rw [hrun, hask, nodeOp_none heffect, setNode_self hfound]
      exact h
    | some change =>
      obtain ⟨r, on⟩ := change
      have hask : w.ledger.ask op pin = w.ledger.put pin r on := by
        unfold Ledger.ask
        rw [hplace]
        dsimp only [nodePlace]
        rw [heffect]
      have hdriver : node.driver ≠ .dummy := fun hd => by
        rw [hd] at heffect
        cases heffect
      have hdone := nodeOp_effect hw pin (h.chips node (findNode_mem hfound).1 hdriver).1
        (h.index_lt hfound hdriver) op w.globals.bus
      rw [heffect] at hdone
      rw [hrun, hask] at hplaced ⊢
      exact kept_performed h hfound hdriver hdone (nodeOp_same B op node pin w.globals.bus) hplaced

theorem size_pins {u : Setup} (hdriver : u.driver ≠ .dummy) : u.size = pins u.driver := by
  unfold Setup.size
  cases hd : u.driver with
  | dummy => exact absurd hd hdriver
  | _ => rfl

theorem kept_setup (hw : Wired B chip content) (h : Kept chip content w) {u : Setup}
    (hproper : Proper chip w (.setup u)) {s : Globals β} (hrun : u.run B w.globals = some s) :
    Kept chip content
      ⟨s, if u.opened then w.ledger.enter (content w.globals.bus) u else w.ledger⟩ := by
  have hplaced := @placed_setup _ B content _ h.placed _ hproper.counted _ hrun
  cases hopened : u.opened with
  | false =>
    rw [u.run_unopened B hopened] at hrun
    split at hrun
    · cases hrun
      exact h
    · cases hrun
  | true =>
    rw [hopened] at hplaced
    rcases u.run_opened B (hproper.counted hopened) hopened w.globals with ⟨-, hnone⟩ | ⟨node, bus, hsome, hnew, hcopied⟩
    · rw [hnone] at hrun
      cases hrun
    rw [hsome] at hrun
    cases hrun
    have hcontent : content bus = content w.globals.bus := by
      by_cases hd : u.driver = .dummy
      · rw [hcopied.idle hd]
      · exact (hcopied.chip chip content hw (hproper.chip u rfl hopened hd).1).1
    have hfind := fun q => @findNode_new w.globals.nodes _ _ q _ hnew.pinBase hnew.pinMax
    have hsetting : ∀ q r, (w.ledger.enter (content w.globals.bus) u).setting q r =
      if inRange u.pinBase u.size q then
        (register u.driver r (u.place q).bankB).map fun _ => (content w.globals.bus).at (u.place q) r
      else w.ledger.setting q r := fun _ _ => rfl
    refine ⟨hplaced, fun n hn hd => ?_, List.pairwise_cons.mpr ⟨fun n hn hd hd' => ?_, h.lines⟩,
      fun q n hq hd r => ?_, fun q n r on hq hset => ?_, fun q n on hq hset => ?_⟩
    · rcases List.mem_cons.mp hn with rfl | hn
      · rw [hnew.driver] at hd
        rw [hnew.driver, hnew.line, hnew.pinMax, hnew.pinBase, size_pins hd]
        exact ⟨(hproper.chip u rfl hopened hd).1, rfl⟩
      · exact h.chips n hn hd
    · rw [hnew.driver] at hd
      rw [hnew.line]
      exact ((hproper.chip u rfl hopened hd).2 n hn hd').symm
    · rw [hfind] at hq
      rw [if_pos rfl, hsetting]
      by_cases hin : inRange u.pinBase u.size q
      · rw [if_pos hin] at hq ⊢
        cases hq
        rw [← hnew.driver, hd]
        rfl
      · rw [if_neg hin] at hq ⊢
        exact h.dummies q n hq hd r
    · rw [hfind] at hq
      rw [if_pos rfl, hsetting] at hset
      by_cases hin : inRange u.pinBase u.size q
      · rw [if_pos hin] at hq hset
        cases hq
        obtain ⟨reg, -, hon⟩ := Option.map_eq_some_iff.mp hset
        rw [hnew.place, hcontent]
        exact hon
      · rw [if_neg hin] at hq hset
        rw [hcontent]
        exact h.held q n r on hq hset
    · rw [hfind] at hq
      rw [if_pos rfl, hsetting] at hset
      by_cases hin : inRange u.pinBase u.size q
      · rw [if_pos hin] at hq hset
        cases hq
        obtain ⟨reg, hreg, hon⟩ := Option.map_eq_some_iff.mp hset
        have hd : u.driver ≠ .dummy := fun hd => by
          rw [hd] at hreg
          cases hreg
        rw [hnew.place, (hcopied.chip chip content hw (hproper.chip u rfl hopened hd).1).2 _ reg hreg]
        exact hon
      · rw [if_neg hin] at hq hset
        exact h.copied q n on hq hset

theorem kept_watch (hw : Wired B chip content) (h : Kept chip content w) {e : Event}
    (hproper : Proper chip w e) (hstep : watch B content w e = some w') : Kept chip content w' := by
  cases e with
  | setup u =>
    obtain ⟨s, hrun, rfl⟩ := Option.map_eq_some_iff.mp hstep
    exact kept_setup hw h hproper hrun
  | op op pin =>
    cases hstep
    exact kept_op hw h op pin

end Kept

/-! ## Reading back -/

/-- The driver of a chip that has a port register for the bank. -/
theorem nodeDigitalRead_port {node : Node} {pin : Int} (hchip : node.driver ≠ .dummy)
    (hport : node.driver ≠ .pcf8574) (hindex : index node pin < pins node.driver) (bus : β) :
    ∃ reg, port node.driver (nodePlace pin node).bankB = some reg ∧
      (nodeDigitalRead B node pin bus).1 =
        (B.readReg bus (Node.line node) reg).1.getLsbD (nodePlace pin node).bit := by
  have hlow : index node pin < 8 → (nodePlace pin node).bankB = false ∧
      (nodePlace pin node).bit = index node pin := fun hlt =>
    ⟨decide_eq_false (Nat.not_le.mpr hlt), Nat.mod_eq_of_lt hlt⟩
  have hhigh : ¬ index node pin < 8 → (nodePlace pin node).bankB = true := fun hge =>
    decide_eq_true (Nat.le_of_not_lt hge)
  have h16 : ∀ regA regB, (if (nodePlace pin node).bankB then some regB else some regA) =
      port node.driver (nodePlace pin node).bankB → ∃ reg,
        port node.driver (nodePlace pin node).bankB = some reg ∧ (read16 B regA regB node pin bus).1 =
          (B.readReg bus (Node.line node) reg).1.getLsbD (nodePlace pin node).bit := by
    intro regA regB hregs
    rw [← hregs, read16]
    by_cases hlt : index node pin < 8
    · obtain ⟨hbank, hbit⟩ := hlow hlt
      rw [hbank, hbit, if_pos hlt]
      exact ⟨regA, rfl, rfl⟩
    · rw [hhigh hlt, if_neg hlt]
      exact ⟨regB, rfl, rfl⟩
  cases hd : node.driver with
  | dummy => exact absurd hd hchip
  | pcf8574 => exact absurd hd hport
  | mcp23008 | mcp23s08 =>
    rw [hd] at hindex
    rw [(hlow hindex).1]
    refine ⟨mcp23x08Gpio, rfl, ?_⟩
    simp only [nodeDigitalRead, hd]
    rfl
  | mcp23016 | mcp23017 | mcp23s17 =>
    rw [hd] at h16
    simp only [nodeDigitalRead, hd]
    refine h16 _ _ ?_
    cases (nodePlace pin node).bankB <;> rfl

theorem mcp23008Bus_wired : Wired mcp23008Bus (fun _ => .mcp23008) id where
  readReg_keeps _ _ _ := rfl
  read_keeps _ _ := rfl
  readReg s line r b reg h := by
    cases r <;> cases b <;> cases h <;> rfl
  writeReg s line r b reg v hr h := by
    cases r with
    | latch => exact absurd rfl hr
    | input | pulled =>
      cases b <;> cases h
      rfl
  writePort s line b reg v h := by
    cases b <;> cases h
    rfl
  configure s line reg v h _ := by
    cases List.mem_singleton.mp h
    rfl
  write s line v h := nomatch h
  levels s line b reg bit h hbit _ := by
    cases b <;> cases h
    have hlt : decide (bit < 32) = true := decide_eq_true (by omega)
    exact (BitVec.getLsbD_setWidth ..).trans (by rw [hlt, Bool.true_and]; rfl)

/-- The fourth pin is made an output and set. -/
def ledLit : Watched Content :=
  let w : Watched Content :=
    ⟨(Op.pinMode output).run mcp23008Bus 103 ledFitted.globals, ledFitted.ledger.ask (.pinMode output) 103⟩
  ⟨(Op.digitalWrite 1).run mcp23008Bus 103 w.globals, w.ledger.ask (.digitalWrite 1) 103⟩

theorem ledFitted_proper :
    Proper (fun _ => .mcp23008) (started false ledRegisters) (.setup ledUnit) :=
  ⟨ledUnit_counted, fun _ he _ _ => by
    cases he
    exact ⟨rfl, fun _ h => (List.not_mem_nil h).elim⟩⟩

end SmartPrince.Wiring.SettingSoundness

import SmartPrince.Lib.CInt
import SmartPrince.Lib.Ranges

/-! # The nodes of `wiringPi.c`

An extension adds pins to the program by a node: a range of pin numbers, and
the functions that serve them. The list of the nodes is searched from the
newest on. What stands for the function pointers of a node is the file whose
functions they are. -/
namespace SmartPrince.Wiring.Nodes
open SmartPrince.Lib.CInt SmartPrince.Lib.Ranges

inductive Driver where
  | dummy  -- the functions that `wiringPiNewNode` sets
  | mcp23008
  | mcp23016
  | mcp23017
  | mcp23s08
  | mcp23s17
  | pcf8574
  deriving DecidableEq, Repr

/-- `struct wiringPiNodeStruct` -/
structure Node where
  pinBase : Int
  pinMax : Int
  fd : Int
  data0 : BitVec 32
  data1 : BitVec 32
  data2 : BitVec 32
  data3 : BitVec 32
  driver : Driver
  deriving DecidableEq, Repr

/-- `(pin >= node->pinBase) && (pin <= node->pinMax)` -/
abbrev Node.covers (pin : Int) (node : Node) : Bool :=
  Lib.Ranges.covers Node.pinBase Node.pinMax pin node

abbrev Node.Apart : Node → Node → Prop := Lib.Ranges.Apart Node.pinBase Node.pinMax

def wiringPiFindNode (nodes : List Node) (pin : Int) : Option Node := nodes.find? (Node.covers pin)

/-- The node that is found for a pin, as a function of its own left it. -/
def setNode (pin : Int) (node : Node) : List Node → List Node
  | [] => []
  | n :: nodes => if n.covers pin then node :: nodes else n :: setNode pin node nodes

/-- Whether one of the pins is found already: `pin < (pinBase + numPins)` ends the loop. -/
def overlaps (nodes : List Node) (pinBase numPins : Int) : Bool :=
  (List.range (int (pinBase + numPins) - pinBase).toNat).any fun k =>
    (wiringPiFindNode nodes (pinBase + k)).isSome

/-- The node that comes in front of the others; none where the program ends. -/
def wiringPiNewNode (nodes : List Node) (pinBase numPins : Int) : Option Node :=
  -- Minimum pin base is 64
  if pinBase < 64 then none
  -- Check all pins in-case there is overlap:
  else if overlaps nodes pinBase numPins then none
  else some {
    pinBase, pinMax := int (pinBase + numPins - 1)
    fd := 0, data0 := 0, data1 := 0, data2 := 0, data3 := 0, driver := .dummy }

/-- `(pin & PI_GPIO_MASK) == 0` -/
def onBoard (pin : Int) : Bool := decide (0 ≤ pin) && decide (pin < 64)

/-! ## What a new node covers -/

section New
variable {nodes : List Node} {pinBase numPins pin : Int} {node new : Node}

/-- The range of a node with `numPins` pins. -/
def inRange (pinBase numPins pin : Int) : Prop := pinBase ≤ pin ∧ pin < pinBase + numPins

instance (pinBase numPins pin : Int) : Decidable (inRange pinBase numPins pin) :=
  inferInstanceAs (Decidable (_ ∧ _))

/-- The pins are counted, and the number behind the last is an int. -/
def Counted (pinBase numPins : Int) : Prop := 0 ≤ numPins ∧ pinBase + numPins < 2 ^ 31

section Counted
variable (hbase : 64 ≤ pinBase) (hcounted : Counted pinBase numPins)
include hbase hcounted

theorem overlaps_iff : overlaps nodes pinBase numPins = true ↔
    ∃ pin, inRange pinBase numPins pin ∧ wiringPiFindNode nodes pin ≠ none := by
  obtain ⟨hnum, hend⟩ := hcounted
  unfold overlaps
  rw [int_eq (by omega) hend, List.any_eq_true]
  constructor
  · rintro ⟨k, hk, hfound⟩
    rw [List.mem_range] at hk
    exact ⟨pinBase + k, ⟨by omega, by omega⟩, Option.isSome_iff_ne_none.mp hfound⟩
  · rintro ⟨pin, ⟨hlo, hhi⟩, hfound⟩
    refine ⟨(pin - pinBase).toNat, List.mem_range.mpr (by omega), ?_⟩
    rw [show pinBase + ((pin - pinBase).toNat : Int) = pin by omega]
    exact Option.isSome_iff_ne_none.mpr hfound

theorem pinMax_eq : int (pinBase + numPins - 1) = pinBase + numPins - 1 := by
  obtain ⟨hnum, hend⟩ := hcounted
  exact int_eq (by omega) (by omega)

end Counted

/-- When the program ends. -/
theorem wiringPiNewNode_none (hcounted : Counted pinBase numPins) :
    wiringPiNewNode nodes pinBase numPins = none ↔
      pinBase < 64 ∨ ∃ pin, inRange pinBase numPins pin ∧ wiringPiFindNode nodes pin ≠ none := by
  unfold wiringPiNewNode
  by_cases hbase : pinBase < 64
  · simp [hbase]
  · rw [← overlaps_iff (Int.not_lt.mp hbase) hcounted]
    cases overlaps nodes pinBase numPins <;> simp [hbase]

theorem wiringPiNewNode_some (hcounted : Counted pinBase numPins)
    (h : wiringPiNewNode nodes pinBase numPins = some new) :
    new = ⟨pinBase, pinBase + numPins - 1, 0, 0, 0, 0, 0, .dummy⟩ ∧ 64 ≤ pinBase ∧
      ∀ pin, inRange pinBase numPins pin → wiringPiFindNode nodes pin = none := by
  have hnone : ¬ wiringPiNewNode nodes pinBase numPins = none := by
    rw [h]
    nofun
  rw [wiringPiNewNode_none hcounted, not_or] at hnone
  obtain ⟨hbase, hfree⟩ := hnone
  refine ⟨?_, Int.not_lt.mp hbase, fun pin hpin => ?_⟩
  · unfold wiringPiNewNode at h
    rw [if_neg hbase, pinMax_eq (Int.not_lt.mp hbase) hcounted] at h
    split at h
    · cases h
    · exact (Option.some.inj h).symm
  · by_contra hfound
    exact hfree ⟨pin, hpin, hfound⟩

/-- Where the pins go past the ints, none of them is looked for, and the node serves none. -/
theorem wiringPiNewNode_overflow (hlo : 64 ≤ pinBase) (hhi : pinBase < 2 ^ 31) (hnum : numPins < 2 ^ 31)
    (hover : 2 ^ 31 < pinBase + numPins) :
    ∃ new, wiringPiNewNode nodes pinBase numPins = some new ∧ ∀ pin, new.covers pin = false := by
  have hend : int (pinBase + numPins) = pinBase + numPins - 2 ^ 32 := int_overflow (by omega) (by omega)
  have hmax : int (pinBase + numPins - 1) = pinBase + numPins - 1 - 2 ^ 32 :=
    int_overflow (by omega) (by omega)
  have hnone : overlaps nodes pinBase numPins = false := by
    unfold overlaps
    rw [hend, Int.toNat_eq_zero.mpr (by omega)]
    rfl
  refine ⟨⟨pinBase, int (pinBase + numPins - 1), 0, 0, 0, 0, 0, .dummy⟩, ?_, fun pin => ?_⟩
  · unfold wiringPiNewNode
    rw [if_neg (Int.not_lt.mpr hlo), hnone, if_neg Bool.false_ne_true]
  · rw [Bool.eq_false_iff, ne_eq, Lib.Ranges.covers_iff, hmax]
    dsimp only
    omega

/-- A node that was filled in covers the range it was made for. -/
theorem covers_new (hbase : node.pinBase = pinBase) (hmax : node.pinMax = pinBase + numPins - 1) :
    node.covers pin = true ↔ inRange pinBase numPins pin := by
  rw [Lib.Ranges.covers_iff, hbase, hmax]
  unfold inRange
  omega

theorem findNode_new (hbase : node.pinBase = pinBase) (hmax : node.pinMax = pinBase + numPins - 1) :
    wiringPiFindNode (node :: nodes) pin =
      if inRange pinBase numPins pin then some node else wiringPiFindNode nodes pin := by
  unfold wiringPiFindNode
  rw [List.find?_cons]
  by_cases h : inRange pinBase numPins pin
  · rw [(covers_new hbase hmax).mpr h, if_pos h]
  · rw [Bool.eq_false_iff.mpr fun hc => h ((covers_new hbase hmax).mp hc), if_neg h]

theorem pairwise_new (hapart : nodes.Pairwise Node.Apart) (hbase : node.pinBase = pinBase)
    (hmax : node.pinMax = pinBase + numPins - 1)
    (hfree : ∀ pin, inRange pinBase numPins pin → wiringPiFindNode nodes pin = none) :
    (node :: nodes).Pairwise Node.Apart :=
  List.pairwise_cons.mpr
    ⟨apart_of_free fun pin hpin => hfree pin ((covers_new hbase hmax).mp hpin), hapart⟩

end New

/-! ## A node that changed -/

section Set
variable {nodes : List Node} {pin q : Int} {node new : Node}

/-- The functions of a node change what it remembers, not what it serves. -/
structure SameChip (old new : Node) : Prop where
  pinBase : new.pinBase = old.pinBase
  pinMax : new.pinMax = old.pinMax
  fd : new.fd = old.fd
  data0 : new.data0 = old.data0
  data1 : new.data1 = old.data1
  driver : new.driver = old.driver

theorem SameChip.refl (node : Node) : SameChip node node := ⟨rfl, rfl, rfl, rfl, rfl, rfl⟩

theorem SameChip.covers (h : SameChip node new) (q : Int) : new.covers q = node.covers q := by
  unfold Node.covers Lib.Ranges.covers
  rw [h.pinBase, h.pinMax]

theorem findNode_mem (h : wiringPiFindNode nodes pin = some node) :
    node ∈ nodes ∧ node.covers pin = true :=
  ⟨List.mem_of_find?_eq_some h, List.find?_some h⟩

theorem mem_setNode (h : node ∈ setNode pin new nodes) : node = new ∨ node ∈ nodes := by
  induction nodes with
  | nil => cases h
  | cons n nodes ih =>
    rw [setNode] at h
    split at h
    · rcases List.mem_cons.mp h with rfl | h
      · exact .inl rfl
      · exact .inr (List.mem_cons_of_mem _ h)
    · rcases List.mem_cons.mp h with rfl | h
      · exact .inr List.mem_cons_self
      · exact (ih h).imp_right (List.mem_cons_of_mem _)

theorem setNode_self (hfound : wiringPiFindNode nodes pin = some node) :
    setNode pin node nodes = nodes := by
  induction nodes with
  | nil => rfl
  | cons n nodes ih =>
    unfold wiringPiFindNode at hfound
    rw [List.find?_cons] at hfound
    rw [setNode]
    cases hn : n.covers pin with
    | true =>
      rw [hn] at hfound
      cases hfound
      rfl
    | false =>
      rw [hn] at hfound
      rw [if_neg Bool.false_ne_true, ih hfound]

/-- What the node keeps the table keeps, entry by entry. -/
theorem map_setNode {α : Type} (f : Node → α) (hfound : wiringPiFindNode nodes pin = some node)
    (hf : f new = f node) : (setNode pin new nodes).map f = nodes.map f := by
  induction nodes with
  | nil => rfl
  | cons n nodes ih =>
    unfold wiringPiFindNode at hfound
    rw [List.find?_cons] at hfound
    rw [setNode]
    cases hn : n.covers pin with
    | true =>
      rw [hn] at hfound
      cases hfound
      rw [if_pos rfl, List.map_cons, hf, List.map_cons]
    | false =>
      rw [hn] at hfound
      rw [if_neg Bool.false_ne_true, List.map_cons, ih hfound, List.map_cons]

/-- A relation between entries that only looks at what the node keeps. -/
theorem pairwise_setNode {α : Type} {R : Node → Node → Prop} {S : α → α → Prop} (f : Node → α)
    (hR : ∀ a b, R a b ↔ S (f a) (f b)) (hfound : wiringPiFindNode nodes pin = some node)
    (hf : f new = f node) (h : nodes.Pairwise R) : (setNode pin new nodes).Pairwise R := by
  have hall : ∀ nodes : List Node, nodes.Pairwise R ↔ (nodes.map f).Pairwise S := fun nodes => by
    rw [List.pairwise_map]
    exact ⟨fun hp => hp.imp fun hab => (hR _ _).mp hab, fun hp => hp.imp fun hab => (hR _ _).mpr hab⟩
  rw [hall, map_setNode f hfound hf, ← hall]
  exact h

theorem pairwise_set (hapart : nodes.Pairwise Node.Apart)
    (hfound : wiringPiFindNode nodes pin = some node) (hsame : SameChip node new) :
    (setNode pin new nodes).Pairwise Node.Apart :=
  pairwise_setNode (S := Lib.Ranges.Apart Prod.fst Prod.snd) (fun n => (n.pinBase, n.pinMax))
    (fun _ _ => Iff.rfl) hfound (congrArg₂ Prod.mk hsame.pinBase hsame.pinMax) hapart

theorem findNode_set (hapart : nodes.Pairwise Node.Apart)
    (hfound : wiringPiFindNode nodes pin = some node) (hsame : SameChip node new) :
    wiringPiFindNode (setNode pin new nodes) q =
      if node.covers q then some new else wiringPiFindNode nodes q := by
  induction hapart with
  | nil => cases hfound
  | @cons n nodes hfirst _ ih =>
    unfold wiringPiFindNode at hfound ih ⊢
    rw [List.find?_cons] at hfound
    rw [setNode]
    cases hn : n.covers pin with
    | true =>
      rw [hn] at hfound
      cases hfound
      rw [if_pos rfl, List.find?_cons, List.find?_cons, hsame.covers]
      cases node.covers q <;> rfl
    | false =>
      rw [hn] at hfound
      rw [if_neg Bool.false_ne_true, List.find?_cons, List.find?_cons, ih hfound]
      cases hq : n.covers q with
      | true =>
        have hnode : node.covers q = false := hfirst node (findNode_mem hfound).1 q hq
        rw [hnode]
        rfl
      | false => rfl

end Set

end SmartPrince.Wiring.Nodes

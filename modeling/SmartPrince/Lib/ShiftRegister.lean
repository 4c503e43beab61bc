import Mathlib.Data.List.Basic

/-! # Shift registers with output latches

A chain of stages of any length behind three wires. A rising clock moves every
stage on by one and takes the data wire into the first; a rising latch copies
the stages to the outputs. -/
namespace SmartPrince.Lib.ShiftRegister

inductive Wire where
  | data
  | clock
  | latch
  deriving DecidableEq, Repr

structure Chain where
  level : Wire → Bool
  stages : Nat → Bool
  outputs : Nat → Bool

def shift (on : Bool) (stages : Nat → Bool) : Nat → Bool
  | 0 => on
  | k + 1 => stages k

/-- A wire is brought to a level. -/
def Chain.set (c : Chain) (wire : Wire) (on : Bool) : Chain where
  level := fun v => if v = wire then on else c.level v
  stages := if wire = .clock ∧ c.level .clock = false ∧ on = true then shift (c.level .data) c.stages else c.stages
  outputs := if wire = .latch ∧ c.level .latch = false ∧ on = true then c.stages else c.outputs

@[simp] theorem set_level (c : Chain) (wire : Wire) (on : Bool) (v : Wire) :
    (c.set wire on).level v = if v = wire then on else c.level v := rfl

/-- A wire that is brought to the level it has -/
theorem set_same {c : Chain} {wire : Wire} {on : Bool} (h : c.level wire = on) : c.set wire on = c := by
  have hlevel : (fun v => if v = wire then on else c.level v) = c.level := by
    funext v
    by_cases hv : v = wire
    · rw [if_pos hv, hv, h]
    · rw [if_neg hv]
  have hrise : ∀ v, ¬ (wire = v ∧ c.level v = false ∧ on = true) := by
    rintro v ⟨rfl, hlow, hon⟩
    rw [hlow, hon] at h
    cases h
  unfold Chain.set
  rw [hlevel, if_neg (hrise _), if_neg (hrise _)]

def Chain.run (c : Chain) (sets : List (Wire × Bool)) : Chain := sets.foldl (fun c s => c.set s.1 s.2) c

theorem run_append (c : Chain) (a b : List (Wire × Bool)) : c.run (a ++ b) = (c.run a).run b :=
  List.foldl_append ..

/-! ## Bits clocked in -/

/-- One bit on the data wire, and a pulse of the clock. -/
def pulse (on : Bool) : List (Wire × Bool) := [(.data, on), (.clock, true), (.clock, false)]

def clockIn (bits : List Bool) : List (Wire × Bool) := bits.flatMap pulse

variable {c : Chain} {bits : List Bool}

/-- What bits that are clocked in do to the chain: the last one lies in the first stage. -/
structure Taken (c : Chain) (bits : List Bool) (c' : Chain) : Prop where
  stages : ∀ k, c'.stages k = (bits.reverse[k]?).getD (c.stages (k - bits.length))
  outputs : c'.outputs = c.outputs
  clock : c'.level .clock = false
  latch : c'.level .latch = c.level .latch

theorem run_pulse (hclock : c.level .clock = false) (on : Bool) :
    (c.run (pulse on)).stages = shift on c.stages ∧ (c.run (pulse on)).outputs = c.outputs ∧
      (c.run (pulse on)).level .clock = false ∧ (c.run (pulse on)).level .latch = c.level .latch := by
  simp [Chain.run, pulse, Chain.set, hclock]

theorem run_clockIn (hclock : c.level .clock = false) : Taken c bits (c.run (clockIn bits)) := by
  induction bits generalizing c with
  | nil => exact ⟨fun k => rfl, rfl, hclock, rfl⟩
  | cons on bits ih =>
    obtain ⟨hstages, houtputs, hlow, hlatch⟩ := run_pulse hclock on
    have hrest := ih hlow
    unfold clockIn at hrest ⊢
    rw [List.flatMap_cons, run_append]
    refine ⟨fun k => ?_, hrest.outputs.trans houtputs, hrest.clock, hrest.latch.trans hlatch⟩
    rw [hrest.stages, hstages, List.reverse_cons]
    by_cases hk : k < bits.length
    · rw [List.getElem?_append_left (by simpa using hk), List.getElem?_eq_getElem (by simpa using hk)]
      rfl
    · rw [List.getElem?_append_right (by simpa using hk), List.length_reverse,
        List.getElem?_eq_none (by simpa using hk)]
      obtain ⟨j, rfl⟩ := Nat.exists_eq_add_of_le (Nat.le_of_not_lt hk)
      rw [Nat.add_sub_cancel_left, List.length_cons]
      cases j with
      | zero => rfl
      | succ j =>
        rw [show bits.length + (j + 1) - (bits.length + 1) = j by omega]
        rfl

/-! ## Loading -/

/-- The latch is low while the bits are clocked in. -/
def load (bits : List Bool) : List (Wire × Bool) := (.latch, false) :: clockIn bits ++ [(.latch, true)]

theorem run_load (c : Chain) (bits : List Bool) :
    c.run (load bits) = ((c.set .latch false).run (clockIn bits)).set .latch true :=
  run_append (c.set .latch false) (clockIn bits) [(.latch, true)]

/-- What the chain is after a load -/
structure Loaded (c : Chain) (bits : List Bool) (c' : Chain) : Prop where
  outputs : ∀ k, c'.outputs k = (bits.reverse[k]?).getD (c.stages (k - bits.length))
  clock : c'.level .clock = false
  latch : c'.level .latch = true

theorem loaded_load (hclock : c.level .clock = false) : Loaded c bits (c.run (load bits)) := by
  have htaken := @run_clockIn (c.set .latch false) bits (by simpa using hclock)
  have hlow : ((c.set .latch false).run (clockIn bits)).level .latch = false := by
    rw [htaken.latch]
    rfl
  rw [run_load]
  refine ⟨fun k => ?_, ?_, rfl⟩
  · refine (congrFun (if_pos ⟨rfl, hlow, rfl⟩) k).trans ((htaken.stages k).trans ?_)
    rfl
  · rw [set_level, if_neg (by decide)]
    exact htaken.clock

/-- Where no latch goes up the outputs stay. -/
theorem run_outputs (sets : List (Wire × Bool)) (h : (.latch, true) ∉ sets) (c : Chain) :
    (c.run sets).outputs = c.outputs := by
  induction sets generalizing c with
  | nil => rfl
  | cons s sets ih =>
    obtain ⟨hs, hsets⟩ := not_or.mp (mt List.mem_cons.mpr h)
    refine (ih hsets (c.set s.1 s.2)).trans (if_neg fun hrise => hs ?_)
    exact Prod.ext hrise.1.symm hrise.2.2.symm

/-- Before the last step of a load the outputs are the old ones. -/
theorem load_before {before after : List (Wire × Bool)} (h : load bits = before ++ after) (hafter : after ≠ [])
    (c : Chain) : (c.run before).outputs = c.outputs := by
  refine run_outputs before (fun hmem => ?_) c
  obtain ⟨last, rfl⟩ : ∃ rest, after = rest ++ [(.latch, true)] := by
    obtain ⟨rest, s, rfl⟩ := List.eq_nil_or_concat after |>.resolve_left hafter
    rw [load, List.concat_eq_append, ← List.append_assoc] at h
    exact ⟨rest, by rw [List.concat_eq_append, (List.append_inj' h rfl).2]⟩
  rw [load, ← List.append_assoc] at h
  have hinit := (List.append_inj' h rfl).1
  have hin : (Wire.latch, true) ∈ (Wire.latch, false) :: clockIn bits := hinit ▸ List.mem_append_left last hmem
  rcases List.mem_cons.mp hin with hfirst | hclock
  · cases hfirst
  · obtain ⟨on, -, hpulse⟩ := List.mem_flatMap.mp hclock
    simp [pulse] at hpulse

end SmartPrince.Lib.ShiftRegister

import SmartPrince.Wiring.PinSettings

/-! # The registers of the board's pins

The functions of the pins lie ten in a word and are changed by reading and
writing it, the levels are set and cleared by words of ones. What a write does
is said here pin by pin. -/
namespace SmartPrince.Wiring.OnBoardRegisters
open SmartPrince.Lib.Register SmartPrince.Wiring.Nodes SmartPrince.Wiring.OnBoard
open SmartPrince.Wiring.PinSettings

/-! ## The tables -/

section Tables
variable {α : Type} {table : List α} {v : α}

theorem entry_natCast (table : List α) (n : Nat) : entry table (n : Int) = table[n]? := by
  rw [entry, if_pos (Int.natCast_nonneg n), Int.toNat_natCast]

theorem entry_neg (table : List α) {i : Int} (h : i < 0) : entry table i = none := by
  rw [entry, if_neg (Int.not_le.mpr h)]

theorem getElem?_gpioToGPFSEL (n : Nat) :
    gpioToGPFSEL[n]? = if n < 60 then some (n / 10) else none := by
  have htable : ∀ n < 60, gpioToGPFSEL[n]? = some (n / 10) := by decide
  by_cases h : n < 60
  · rw [if_pos h, htable n h]
  · rw [if_neg h]
    exact List.getElem?_eq_none (Nat.le_of_not_lt h)

theorem getElem?_gpioToShift (n : Nat) :
    gpioToShift[n]? = if n < 60 then some (3 * (n % 10)) else none := by
  have htable : ∀ n < 60, gpioToShift[n]? = some (3 * (n % 10)) := by decide
  by_cases h : n < 60
  · rw [if_pos h, htable n h]
  · rw [if_neg h]
    exact List.getElem?_eq_none (Nat.le_of_not_lt h)

/-- Two rows of 32. -/
theorem getElem?_rows (a : Nat) {n : Nat} (h : n < 64) :
    (List.replicate 32 a ++ List.replicate 32 (a + 1))[n]? = some (a + n / 32) := by
  by_cases hlo : n < 32
  · rw [List.getElem?_append_left (by simpa using hlo), List.getElem?_replicate_of_lt hlo,
      Nat.div_eq_of_lt hlo, Nat.add_zero]
  · rw [List.getElem?_append_right (by simpa using hlo), List.length_replicate,
      List.getElem?_replicate_of_lt (by omega), show n / 32 = 1 by omega]

end Tables

/-! ## The registers -/

section Hits
variable {n base offset p : Nat} {word : BitVec 32}

theorem and_31 (n : Nat) : n &&& 31 = n % 32 := Nat.and_two_pow_sub_one_eq_mod n 5

theorem hits_bit : hits base offset (1#32 <<< (n &&& 31)) p =
    (decide (offset = base + p / 32) && decide (p < 64) && decide (p % 32 = n % 32)) := by
  have hbit : (1#32 <<< (n % 32)).getLsbD (p % 32) = decide (p % 32 = n % 32) := by
    have hp : p % 32 < 32 := Nat.mod_lt _ (by decide)
    rw [← Bool.coe_iff_coe]
    simp [hp]
    omega
  rw [hits, and_31]
  exact congrArg _ hbit

/-- The pin alone is met by its word and its bit. -/
theorem hits_own (hn : n < 64) : hits base (base + n / 32) (1#32 <<< (n &&& 31)) p = decide (p = n) := by
  rw [hits_bit, ← Bool.coe_iff_coe]
  simp only [Bool.and_eq_true, decide_eq_true_eq]
  omega

theorem hits_other (h : offset < base ∨ base + 1 < offset) : hits base offset word p = false := by
  unfold hits
  by_cases hp : p < 64
  · rw [decide_eq_false (by omega), Bool.false_and, Bool.false_and]
  · rw [decide_eq_false hp, Bool.and_false, Bool.false_and]

theorem hits_zero : hits base offset 0 p = false := by
  unfold hits
  simp

end Hits

section Gpio
variable (g : Gpio) {n offset : Nat}

theorem write_outside (offset : Nat) (word : BitVec 32) : (g.write offset word).outside = g.outside := by
  unfold Gpio.write
  split_ifs <;> rfl

/-- The function words -/
theorem write_function (offset : Nat) (word : BitVec 32) (p : Nat) : (g.write offset word).function p =
    if offset < 6 ∧ p / 10 = offset then field word (3 * (p % 10)) 3 else g.function p := by
  unfold Gpio.write Gpio.function
  by_cases h6 : offset < 6
  · rw [if_pos h6]
    dsimp only
    rw [Function.update_apply]
    by_cases hp : p / 10 = offset
    · rw [if_pos hp, if_pos ⟨h6, hp⟩]
    · rw [if_neg hp, if_neg fun h => hp h.2]
  · rw [if_neg h6]
    by_cases h37 : offset = 37
    · rw [if_pos h37, if_neg fun h => h6 h.1]
    · rw [if_neg h37, if_neg fun h => h6 h.1]

theorem write_latch (h6 : 6 ≤ offset) (word : BitVec 32) (p : Nat) : (g.write offset word).latch p =
    if hits 7 offset word p then true else if hits 10 offset word p then false else g.latch p := by
  unfold Gpio.write
  rw [if_neg (Nat.not_lt.mpr h6)]
  by_cases h37 : offset = 37
  · subst h37
    rw [if_pos rfl, hits_other (by omega), hits_other (by omega)]
    rfl
  · rw [if_neg h37]

theorem write_pull (h6 : 6 ≤ offset) (word : BitVec 32) (p : Nat) : (g.write offset word).pull p =
    if hits 38 offset word p then g.gppud else g.pull p := by
  unfold Gpio.write
  rw [if_neg (Nat.not_lt.mpr h6)]
  by_cases h37 : offset = 37
  · subst h37
    rw [if_pos rfl, hits_other (by omega)]
    rfl
  · rw [if_neg h37]

/-- A word that sets or clears pins -/
theorem pins_levels (hlo : 6 ≤ offset) (hhi : offset < 37) (word : BitVec 32) :
    pinsOf (g.write offset word) = ⟨g.function, (g.write offset word).latch, g.pull⟩ := by
  refine Pins.ext (fun p => ?_) (fun p => rfl) fun p => ?_
  · exact (write_function g offset word p).trans (if_neg (by omega))
  · refine (write_pull g hlo word p).trans ?_
    rw [hits_other (by omega)]
    rfl

theorem pins_set (hn : n < 64) : pinsOf (g.write (7 + n / 32) (1#32 <<< (n &&& 31))) =
    ⟨g.function, Function.update g.latch n true, g.pull⟩ := by
  rw [pins_levels g (by omega) (by omega)]
  refine Pins.ext (fun p => rfl) (fun p => ?_) fun p => rfl
  show Gpio.latch _ p = Function.update g.latch n true p
  rw [write_latch g (by omega), hits_own hn, hits_other (by omega), Function.update_apply]
  simp

theorem pins_clear (hn : n < 64) : pinsOf (g.write (10 + n / 32) (1#32 <<< (n &&& 31))) =
    ⟨g.function, Function.update g.latch n false, g.pull⟩ := by
  rw [pins_levels g (by omega) (by omega)]
  refine Pins.ext (fun p => rfl) (fun p => ?_) fun p => rfl
  show Gpio.latch _ p = Function.update g.latch n false p
  rw [write_latch g (by omega), hits_own hn, hits_other (by omega), Function.update_apply]
  simp

/-- A word that changes no level -/
theorem write_latch_other (hlo : 12 ≤ offset) (word : BitVec 32) : (g.write offset word).latch = g.latch := by
  funext p
  rw [write_latch g (by omega), hits_other (by omega), hits_other (by omega)]
  rfl

theorem write_function_other (hlo : 6 ≤ offset) (word : BitVec 32) :
    (g.write offset word).function = g.function := by
  funext p
  rw [write_function, if_neg (by omega)]

/-- `GPPUD` is clocked into the pin and taken back. -/
theorem pins_pull (hn : n < 64) (pud : BitVec 32) :
    pinsOf ((((g.write 37 pud).write (38 + n / 32) (1#32 <<< (n &&& 31))).write 37 0).write (38 + n / 32) 0) =
      ⟨g.function, g.latch, Function.update g.pull n pud⟩ := by
  unfold pinsOf
  rw [write_function_other _ (by omega), write_function_other _ (by omega),
    write_function_other _ (by omega), write_function_other _ (by omega), write_latch_other _ (by omega),
    write_latch_other _ (by omega), write_latch_other _ (by omega), write_latch_other _ (by omega)]
  refine Pins.ext (fun p => rfl) (fun p => rfl) fun p => ?_
  dsimp only
  rw [write_pull _ (by omega), write_pull _ (by omega), write_pull _ (by omega), write_pull _ (by omega),
    hits_zero, hits_zero, hits_own hn, hits_other (by omega), Function.update_apply]
  simp [Gpio.write]

/-! ### Functions -/

/-- What `setFunction` makes of a pin in the tables. -/
def withFunction (n : Nat) (alt : BitVec 32) : Gpio :=
  g.write (n / 10) (setField (g.read (n / 10)) (3 * (n % 10)) 3 alt)

theorem setFunction_nat (n : Nat) (alt : BitVec 32) :
    setFunction n alt g = if n < 60 then some (withFunction g n alt) else none := by
  unfold setFunction
  rw [entry_natCast, entry_natCast, getElem?_gpioToGPFSEL, getElem?_gpioToShift]
  by_cases h : n < 60
  · simp only [if_pos h]
    rfl
  · simp only [if_neg h]
    rfl

theorem read_fsel (h : offset < 6) : g.read offset = g.fsel offset := if_pos h

/-- One function changes, and the nine others in the word are written back. -/
theorem pins_withFunction (hn : n < 60) (alt : BitVec 32) : pinsOf (withFunction g n alt) =
    ⟨Function.update g.function n (alt &&& 7), g.latch, g.pull⟩ := by
  have h6 : n / 10 < 6 := by omega
  refine Pins.ext (fun p => ?_) (fun p => ?_) fun p => ?_
  · show (withFunction g n alt).function p = Function.update g.function n (alt &&& 7) p
    rw [withFunction, write_function, read_fsel g h6, Function.update_apply]
    by_cases hp : p = n
    · subst hp
      rw [if_pos ⟨h6, rfl⟩, if_pos rfl, field_setField _ _ (by omega)]
      rfl
    · rw [if_neg hp]
      by_cases hword : p / 10 = n / 10
      · rw [if_pos ⟨h6, hword⟩, field_setField_apart _ _ (by omega) (by omega), ← hword]
        rfl
      · rw [if_neg fun h => hword h.2]
  · simp only [pinsOf, withFunction, Gpio.write, if_pos h6]
  · simp only [pinsOf, withFunction, Gpio.write, if_pos h6]

theorem withFunction_outside (n : Nat) (alt : BitVec 32) : (withFunction g n alt).outside = g.outside :=
  write_outside ..

end Gpio

end SmartPrince.Wiring.OnBoardRegisters

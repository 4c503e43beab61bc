import SmartPrince.Wiring.OnBoardBytes

/-! # What the board's pins keep

Over any run each pin of the board keeps what was last asked of it, under
whatever number, and what is read is that. A byte that is written to eight pins
is read back with its bits in the other order. -/
namespace SmartPrince.Wiring.OnBoardSoundness
open SmartPrince.Lib.Register SmartPrince.Wiring.Nodes SmartPrince.Wiring.OnBoard
open SmartPrince.Wiring.PinSettings SmartPrince.Wiring.OnBoardRegisters SmartPrince.Wiring.OnBoardPins SmartPrince.Wiring.OnBoardBytes

section Runs
variable {s : Setup} {b b' : Board} {pin : Int} {n : Nat}

/-! ## Runs -/

theorem run_gives (op : Op) (b : Board) :
    Gives b (op.within b.toSetup) ((pinsOf b.gpio).step b.toSetup op) (op.run b) := by
  cases op with
  | pinModeAlt pin mode => exact pinModeAlt_gives mode
  | pinMode pin mode => exact pinMode_gives mode
  | pullUpDnControl pin pud => exact pullUpDnControl_gives pud
  | digitalWrite pin value => exact digitalWrite_gives value
  | digitalWriteByte value => exact digitalWriteByte_becomes value
  | digitalWriteByte2 value => exact digitalWriteByte2_becomes value

theorem runAll_gives (ops : List Op) (b : Board) :
    Gives b (ops.all (Op.within b.toSetup)) ((pinsOf b.gpio).runAll b.toSetup ops) (runAll ops b) := by
  induction ops generalizing b with
  | nil => exact ⟨b, rfl, becomes_same b⟩
  | cons op ops ih =>
    have hop := run_gives op b
    unfold runAll
    rw [List.foldlM_cons, List.all_cons]
    cases hw : op.within b.toSetup with
    | false =>
      rw [hw] at hop
      rw [show op.run b = none from hop]
      rfl
    | true =>
      rw [hw] at hop
      obtain ⟨b₁, hrun, hbecomes⟩ := hop
      have hrest := ih b₁
      rw [hbecomes.setup, hbecomes.pins] at hrest
      rw [hrun, Bool.true_and]
      unfold Gives at hrest ⊢
      split
      case isTrue hall =>
        rw [if_pos hall] at hrest
        obtain ⟨b', hb', hlast⟩ := hrest
        exact ⟨b', hb', hlast.setup.trans hbecomes.setup, hlast.pins, hlast.outside.trans hbecomes.outside⟩
      case isFalse hall =>
        rw [if_neg hall] at hrest
        exact hrest

/-! ## Reading -/

theorem read_levels (g : Gpio) (hn : n < 64) : (g.read (13 + n / 32)).getLsbD (n % 32) = g.level n := by
  unfold Gpio.read
  rw [if_neg (by omega), getLsbD_gather _ (Nat.le_refl 32), decide_eq_true (Nat.mod_lt n (by decide)),
    Nat.add_sub_cancel_left, Nat.div_add_mod]
  rfl

/-- A bit of a level word, as the functions test it -/
theorem read_bit (g : Gpio) (hn : n < 64) :
    decide (g.read (13 + n / 32) &&& 1#32 <<< (n &&& 31) ≠ 0) = g.level n := by
  have hlt : n % 32 < 32 := Nat.mod_lt n (by decide)
  rw [and_31]
  simp only [ne_eq, and_bit_eq_zero _ hlt, read_levels g hn]
  cases g.level n <;> rfl

theorem numberOf_some (h : numberOf s pin = some n) : onBoard pin = true ∧ s.translate pin = some (n : Int) := by
  unfold numberOf at h
  split at h
  case isTrue hon =>
    obtain ⟨q, hq, hn⟩ := Option.bind_eq_some_iff.mp h
    split at hn
    case isTrue h0 =>
      cases hn
      exact ⟨hon, hq.trans (congrArg some (Int.toNat_of_nonneg h0).symm)⟩
    case isFalse => cases hn
  case isFalse => cases h

theorem digitalRead_number (h : numberOf b.toSetup pin = some n)
    (hopen : b.wiringPiMode = .gpioSys → b.sysFds n = true) :
    digitalRead pin b = some (b.gpio.level n) := by
  obtain ⟨hon, hq⟩ := numberOf_some h
  unfold digitalRead
  rw [if_pos hon]
  by_cases hm : b.wiringPiMode = .gpioSys
  · rw [numberOf_sys hm hon] at h
    cases h
    rw [if_pos hm, hopen hm]
    rfl
  · have hlt := numberOf_lt h
    rw [if_neg hm, hq, gpioToGPLEV, Option.bind_eq_bind, Option.bind_some, entry_rows 13 hlt]
    exact congrArg some (read_bit b.gpio hlt)

theorem getAlt_number (h : numberOf b.toSetup pin = some n) (hm : b.wiringPiMode ≠ .gpioSys) (hn : n < 60) :
    getAlt pin b = some (b.gpio.function n) := by
  obtain ⟨hon, hq⟩ := numberOf_some h
  obtain ⟨h0, h64⟩ := onBoard_iff.mp hon
  unfold getAlt
  rw [if_neg hm, Int.emod_eq_of_lt h0 h64, hq, Option.bind_eq_bind, Option.bind_some, entry_natCast,
    entry_natCast, getElem?_gpioToGPFSEL, getElem?_gpioToShift, if_pos hn, if_pos hn]
  show some (field (b.gpio.read (n / 10)) (3 * (n % 10)) 3) = some (b.gpio.function n)
  rw [read_fsel b.gpio (by omega)]
  rfl

/-- What a run asks the pins to keep -/
def settings (ops : List Op) (b : Board) : Pins := (pinsOf b.gpio).runAll b.toSetup ops

/-- A board after its reset, with all inputs low. -/
def freshBoard (mode : Mode) : Board where
  wiringPiMode := mode
  layout := .r2
  sysFds _ := true
  gpio := { fsel := fun _ => 0, latch := fun _ => false, pull := fun _ => 0, gppud := 0, outside := fun _ => false }
  pwm _ := 0
  clk _ := 0

/-- The clock of physical pin 7, which is 4 in the processor, is looked up as that of
physical pin 4, which is a supply. -/
example : (pinMode 7 .gpioClock (freshBoard .phys)).isNone = true := rfl

def ledOps : List Op := [.pinMode 0 .output, .pinMode 1 .pwmOutput, .digitalWrite 0 5, .pinMode 2 .gpioClock]

theorem shiftBits_spec {x : Nat → Option Bool} {f : Nat → Bool} (hn : n ≤ 32)
    (hx : ∀ k < n, x k = some (f k)) :
    ∃ r, shiftBits x n = some r ∧ ∀ j, r.getLsbD j = (decide (j < n) && f (n - 1 - j)) := by
  induction n with
  | zero => exact ⟨0, rfl, by simp⟩
  | succ n ih =>
    obtain ⟨data, hdata, hbits⟩ := ih (Nat.le_of_succ_le hn) fun k hk => hx k (Nat.lt_succ_of_lt hk)
    refine ⟨data <<< 1 ||| if f n then 1 else 0, ?_, fun j => ?_⟩
    · unfold shiftBits
      rw [hdata, Option.bind_eq_bind, Option.bind_some, hx n (Nat.lt_succ_self n)]
      rfl
    · have hlow : (if f n = true then (1 : BitVec 32) else 0).getLsbD j = (decide (j = 0) && f n) := by
        cases f n <;> cases j <;> simp
      rw [BitVec.getLsbD_or, BitVec.getLsbD_shiftLeft, hbits, hlow]
      cases j with
      | zero => simp
      | succ j =>
        rw [show n + 1 - 1 - (j + 1) = n - 1 - j by omega]
        by_cases hj : j < n
        · simp [hj, show j + 1 < 32 by omega]
        · simp [hj]

/-- What the byte's pins are read as after a write -/
theorem level_written {lines : Nat → Nat} {value : BitVec 32}
    (hinj : ∀ j < 8, ∀ k < 8, lines j = lines k → j = k)
    (hout : ∀ k < 8, b.gpio.function (lines k) = fselOutp)
    (hopen : b.wiringPiMode = .gpioSys → ∀ k < 8, b.sysFds (lines k) = true)
    (h : Becomes b ((pinsOf b.gpio).setBits b.toSetup lines value 8) b') {k : Nat} (hk : k < 8) :
    b'.gpio.level (lines k) = value.getLsbD k := by
  have hfunction : b'.gpio.function (lines k) = fselOutp :=
    (congrFun (congrArg Pins.mode h.pins) (lines k)).trans (hout k hk)
  have hlatch : b'.gpio.latch (lines k) = _ := congrFun (congrArg Pins.level h.pins) (lines k)
  have hdriven : (pinsOf b.gpio).driven b.toSetup (lines k) = true := by
    by_cases hm : b.wiringPiMode = .gpioSys
    · have hmode : (pinsOf b.gpio).mode (lines k) = fselOutp := hout k hk
      rw [driven_sys hm, hopen hm k hk, decide_eq_true hmode]
      rfl
    · exact driven_mapped hm _
  rw [Gpio.level, if_pos hfunction, hlatch]
  dsimp only [Pins.setBits]
  rw [hdriven, if_pos rfl, bitFor_at hinj hk]
  rfl

/-- A bit of the first level word -/
theorem read_low (g : Gpio) (hn : n < 32) : decide (g.read 13 &&& 1#32 <<< n ≠ 0) = g.level n := by
  have h := read_bit g (show n < 64 by omega)
  rwa [and_31, Nat.mod_eq_of_lt hn, Nat.div_eq_of_lt hn] at h

/-- A pin that is read by its number in the processor -/
theorem digitalRead_sys (hm : b.wiringPiMode = .gpioSys) (hn : n < 64) (hopen : b.sysFds n = true) :
    digitalRead n b = some (b.gpio.level n) := by
  have hon : onBoard (n : Int) = true := onBoard_iff.mpr ⟨by omega, by omega⟩
  exact digitalRead_number (numberOf_sys hm hon) fun _ => by simpa using hopen

theorem digitalReadByte_spec (hopen : b.wiringPiMode = .gpioSys → ∀ k < 8, b.sysFds (bytePin b.layout k) = true) :
    ∃ r, digitalReadByte b = some r ∧
      ∀ j, r.getLsbD j = (decide (j < 8) && b.gpio.level (bytePin b.layout (8 - 1 - j))) := by
  unfold digitalReadByte
  by_cases hm : b.wiringPiMode = .gpioSys
  · rw [if_pos hm]
    refine shiftBits_spec (by decide) (f := fun k => b.gpio.level (bytePin b.layout k)) fun k hk => ?_
    rw [bytePin_entry b.layout hk, Option.bind_eq_bind, Option.bind_some]
    exact digitalRead_sys hm (Nat.lt_trans (bytePin_lt b.layout hk) (by decide)) (hopen hm k hk)
  · rw [if_neg hm]
    refine shiftBits_spec (by decide) (f := fun k => b.gpio.level (bytePin b.layout k)) fun k hk => ?_
    rw [bytePin_entry b.layout hk, Option.bind_eq_bind, Option.bind_some]
    exact congrArg some (read_low b.gpio (bytePin_lt b.layout hk))

/-- In one way of access the first pin is the last bit, in the other the first. -/
theorem digitalReadByte2_spec (hopen : b.wiringPiMode = .gpioSys → ∀ k < 8, b.sysFds (20 + k) = true) :
    ∃ r, digitalReadByte2 b = some r ∧ ∀ j, r.getLsbD j =
      (decide (j < 8) && b.gpio.level (20 + if b.wiringPiMode = .gpioSys then 8 - 1 - j else j)) := by
  unfold digitalReadByte2
  by_cases hm : b.wiringPiMode = .gpioSys
  · simp only [if_pos hm]
    refine shiftBits_spec (by decide) (f := fun k => b.gpio.level (20 + k)) fun k hk => ?_
    exact digitalRead_sys hm (by omega) (hopen hm k hk)
  · simp only [if_neg hm]
    refine ⟨_, rfl, fun j => ?_⟩
    have hmask : (0xFF : BitVec 32).getLsbD j = (decide (j < 32) && decide (j < 8)) := getLsbD_ones 8 j
    rw [BitVec.getLsbD_and, BitVec.getLsbD_ushiftRight, hmask]
    by_cases hj : j < 8
    · have hlevel := read_levels b.gpio (show 20 + j < 64 by omega)
      rw [Nat.div_eq_of_lt (by omega), Nat.mod_eq_of_lt (by omega)] at hlevel
      rw [hlevel]
      simp [hj, show j < 32 by omega]
    · simp [hj]

/-- **A byte comes back with its bits in the other order.** Pins that are outputs, and open
where they are files, are read by `digitalReadByte` with the first pin as the highest bit,
though `digitalWriteByte` takes it for the lowest. `digitalReadByte2` does that too over
value files, and gives the byte back as it was written by registers. -/
theorem bytes_read_back (value : BitVec 32) (b : Board) :
    ((∀ k < 8, b.gpio.function (bytePin b.layout k) = fselOutp) →
      (b.wiringPiMode = .gpioSys → ∀ k < 8, b.sysFds (bytePin b.layout k) = true) →
      ∃ b' r, digitalWriteByte value b = some b' ∧ digitalReadByte b' = some r ∧
        ∀ j, r.getLsbD j = (decide (j < 8) && value.getLsbD (7 - j))) ∧
    ((∀ k < 8, b.gpio.function (20 + k) = fselOutp) →
      (b.wiringPiMode = .gpioSys → ∀ k < 8, b.sysFds (20 + k) = true) →
      ∃ b' r, digitalWriteByte2 value b = some b' ∧ digitalReadByte2 b' = some r ∧
        ∀ j, r.getLsbD j = (decide (j < 8) &&
          value.getLsbD (if b.wiringPiMode = .gpioSys then 7 - j else j))) := by
  constructor
  · intro hout hopen
    obtain ⟨b', hwrite, hbecomes⟩ := digitalWriteByte_becomes (b := b) value
    have hlevel := fun k hk => @level_written b b' (bytePin b.layout) value
      (fun j hj k hk => bytePin_inj b.layout hj hk) hout hopen hbecomes k hk
    obtain ⟨hm, hlayout, hfds⟩ : b'.wiringPiMode = b.wiringPiMode ∧ b'.layout = b.layout ∧
        b'.sysFds = b.sysFds := by
      rw [hbecomes.setup]
      exact ⟨rfl, rfl, rfl⟩
    obtain ⟨r, hread, hbits⟩ := digitalReadByte_spec (b := b') (by rw [hm, hlayout, hfds]; exact hopen)
    refine ⟨b', r, hwrite, hread, fun j => ?_⟩
    rw [hbits, hlayout]
    by_cases hj : j < 8
    · rw [hlevel _ (by omega)]
    · rw [decide_eq_false hj, Bool.false_and, Bool.false_and]
  · intro hout hopen
    obtain ⟨b', hwrite, hbecomes⟩ := digitalWriteByte2_becomes (b := b) value
    have hlevel := fun k hk => @level_written b b' (20 + ·) value (by omega) hout hopen hbecomes k hk
    obtain ⟨hm, hfds⟩ : b'.wiringPiMode = b.wiringPiMode ∧ b'.sysFds = b.sysFds := by
      rw [hbecomes.setup]
      exact ⟨rfl, rfl⟩
    obtain ⟨r, hread, hbits⟩ := digitalReadByte2_spec (b := b') (by rw [hm, hfds]; exact hopen)
    refine ⟨b', r, hwrite, hread, fun j => ?_⟩
    rw [hbits, hm]
    by_cases hj : j < 8
    · split
      · rw [hlevel _ (by omega)]
      · rw [hlevel _ hj]
    · rw [decide_eq_false hj, Bool.false_and, Bool.false_and]

/-- All pins are outputs. -/
def outputBoard (mode : Mode) : Board :=
  (freshBoard mode).withGpio { (freshBoard mode).gpio with fsel := fun _ => 0x09249249 }

theorem bytes_read_back_one : ∃ b' r, digitalWriteByte 1 (outputBoard .pins) = some b' ∧
    digitalReadByte b' = some r ∧ r.getLsbD 7 = true ∧ r.getLsbD 0 = false := by
  obtain ⟨b', r, hwrite, hread, hbits⟩ := (bytes_read_back 1 (outputBoard .pins)).1 (by decide) nofun
  exact ⟨b', r, hwrite, hread, (hbits 7).trans (by decide), (hbits 0).trans (by decide)⟩

end Runs

end SmartPrince.Wiring.OnBoardSoundness

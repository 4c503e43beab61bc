import SmartPrince.Wiring.OnBoardRegisters

/-! # The board's pins, one by one

Each function of `wiringPi.c` that changes one pin of the board does to its
registers what is said of pins that are kept one by one. -/
namespace SmartPrince.Wiring.OnBoardPins
open SmartPrince.Wiring.Nodes SmartPrince.Wiring.OnBoard SmartPrince.Wiring.PinSettings
open SmartPrince.Wiring.OnBoardRegisters

/-! ## One operation -/

section Step
variable {s : Setup} {b b' : Board} {l : Pins} {pin : Int} {n limit : Nat}

theorem onBoard_iff : onBoard pin = true ↔ 0 ≤ pin ∧ pin < 64 := by
  unfold onBoard
  simp

theorem entry_mem {α : Type} {table : List α} {i : Int} {v : α} (h : entry table i = some v) :
    v ∈ table := by
  unfold entry at h
  split at h
  · exact List.mem_of_getElem? h
  · cases h

theorem translate_lt {q : Int} (hon : onBoard pin = true) (h : s.translate pin = some q) : q < 64 := by
  have hpins : ∀ layout : Layout, ∀ v ∈ layout.pinToGpio, v < 64 := fun layout => by
    cases layout <;> decide
  have hphys : ∀ layout : Layout, ∀ v ∈ layout.physToGpio, v < 64 := fun layout => by
    cases layout <;> decide
  unfold Setup.translate at h
  split at h
  · exact hpins _ _ (entry_mem h)
  · exact hphys _ _ (entry_mem h)
  · cases h
    exact (onBoard_iff.mp hon).2
  · cases h
    exact (onBoard_iff.mp hon).2

theorem numberOf_on {q : Int} (hon : onBoard pin = true) (h : s.translate pin = some q) :
    numberOf s pin = if 0 ≤ q then some q.toNat else none := by
  unfold numberOf
  rw [if_pos hon, h]
  rfl

theorem numberOf_lt (h : numberOf s pin = some n) : n < 64 := by
  unfold numberOf at h
  split at h
  case isTrue hon =>
    obtain ⟨q, hq, hn⟩ := Option.bind_eq_some_iff.mp h
    have hlt := translate_lt hon hq
    split at hn
    · cases hn
      omega
    · cases hn
  case isFalse => cases h

/-- What comes of an operation: new settings with all else kept, or the end. -/
structure Becomes (b : Board) (l : Pins) (b' : Board) : Prop where
  setup : b'.toSetup = b.toSetup
  pins : pinsOf b'.gpio = l
  outside : b'.gpio.outside = b.gpio.outside

def Gives (b : Board) (ok : Bool) (l : Pins) (r : Option Board) : Prop :=
  if ok then ∃ b', r = some b' ∧ Becomes b l b' else r = none

theorem becomes_same (b : Board) : Becomes b (pinsOf b.gpio) b := ⟨rfl, rfl, rfl⟩

theorem becomes_gpio {g : Gpio} (hpins : pinsOf g = l) (houtside : g.outside = b.gpio.outside) :
    Becomes b l (b.withGpio g) := ⟨rfl, hpins, houtside⟩

/-- A pin is translated, and what is done then looks it up in tables of `limit` entries. -/
theorem named {F : Int → Option Board} (hm : s.wiringPiMode ≠ .gpioSys) (hon : onBoard pin = true)
    (hneg : ∀ q < 0, F q = none) (hge : ∀ n : Nat, limit ≤ n → F n = none) :
    (∃ n < limit, numberOf s pin = some n ∧ inTables s limit pin = true ∧
      (s.translate pin).bind F = F n) ∨
    (inTables s limit pin = false ∧ (s.translate pin).bind F = none) := by
  have htable : inTables s limit pin = (numberOf s pin).any (· < limit) := by
    unfold inTables
    rw [decide_eq_false hm, hon]
    rfl
  rw [htable]
  cases hq : s.translate pin with
  | none =>
    right
    unfold numberOf
    rw [if_pos hon, hq]
    exact ⟨rfl, rfl⟩
  | some q =>
    rw [numberOf_on hon hq, Option.bind_some]
    by_cases h0 : 0 ≤ q
    · obtain ⟨n, rfl⟩ := Int.eq_ofNat_of_zero_le h0
      rw [if_pos h0]
      by_cases hn : n < limit
      · exact .inl ⟨n, hn, rfl, by simpa using hn, rfl⟩
      · exact .inr ⟨by simpa using Nat.le_of_not_lt hn, hge n (Nat.le_of_not_lt hn)⟩
    · rw [if_neg h0]
      exact .inr ⟨rfl, hneg q (Int.not_le.mp h0)⟩

theorem gives_at_pin {F : Int → Option Board} {f : Nat → Pins} {ok : Nat → Bool} (hneg : ∀ q < 0, F q = none)
    (hge : ∀ n : Nat, limit ≤ n → F n = none)
    (hact : b.wiringPiMode ≠ .gpioSys → ∀ n < limit, Gives b (ok n) (f n) (F n)) :
    Gives b (inTables b.toSetup limit pin && takes b.toSetup ok pin)
      ((pinsOf b.gpio).atPin b.toSetup pin f)
      (if onBoard pin then
        if b.wiringPiMode = .gpioSys then some b else (b.translate pin).bind F
      else some b) := by
  unfold takes Pins.atPin
  by_cases hm : b.wiringPiMode = .gpioSys
  · have htable : inTables b.toSetup limit pin = true := by
      unfold inTables
      rw [decide_eq_true hm]
      rfl
    rw [htable, decide_eq_true hm, if_pos hm, if_pos hm, ite_self]
    exact ⟨b, rfl, becomes_same b⟩
  · rw [if_neg hm, if_neg hm, decide_eq_false hm, Bool.false_or]
    by_cases hon : onBoard pin = true
    · rw [if_pos hon]
      rcases named hm hon hneg hge with ⟨n, hn, hnumber, htable, hF⟩ | ⟨htable, hF⟩
      · rw [htable, hnumber, hF]
        exact hact hm n hn
      · rw [htable, hF]
        rfl
    · have htable : inTables b.toSetup limit pin = true := by
        unfold inTables
        simp [hon]
      have hnumber : numberOf b.toSetup pin = none := if_neg hon
      rw [if_neg hon, htable, hnumber]
      exact ⟨b, rfl, becomes_same b⟩

/-- Where every number in the tables will do -/
theorem gives_at_any {F : Int → Option Board} {f : Nat → Pins} (hneg : ∀ q < 0, F q = none)
    (hge : ∀ n : Nat, limit ≤ n → F n = none)
    (hact : ∀ n < limit, ∃ b', F n = some b' ∧ Becomes b (f n) b') :
    Gives b (inTables b.toSetup limit pin) ((pinsOf b.gpio).atPin b.toSetup pin f)
      (if onBoard pin then
        if b.wiringPiMode = .gpioSys then some b else (b.translate pin).bind F
      else some b) := by
  have htakes : takes b.toSetup (fun _ => true) pin = true := by
    unfold takes
    cases numberOf b.toSetup pin <;> simp
  have hgives := @gives_at_pin b pin limit F f (fun _ => true) hneg hge fun _ => hact
  rwa [htakes, Bool.and_true] at hgives

theorem setFunction_beside (alt : BitVec 32) (g : Gpio) {q : Int} (hq : q < 0) : setFunction q alt g = none := by
  unfold setFunction
  rw [entry_neg _ hq]
  rfl

/-- A function that is looked up and set -/
theorem becomes_function (hn : n < 60) (alt : BitVec 32) : ∃ b', (setFunction n alt b.gpio).map b.withGpio = some b' ∧
    Becomes b ((pinsOf b.gpio).setMode n (alt &&& 7)) b' := by
  rw [setFunction_nat, if_pos hn]
  exact ⟨_, rfl, becomes_gpio (pins_withFunction b.gpio hn alt) (withFunction_outside ..)⟩

theorem pinModeAlt_gives (mode : BitVec 32) : Gives b (inTables b.toSetup 60 pin)
    ((pinsOf b.gpio).step b.toSetup (.pinModeAlt pin mode)) (pinModeAlt pin mode b) :=
  gives_at_any (fun q hq => by rw [setFunction_beside mode b.gpio hq]; rfl)
    (fun n hn => by rw [setFunction_nat, if_neg (Nat.not_lt.mpr hn)]; rfl)
    fun n hn => becomes_function hn mode

theorem alt_some (mode : PinMode) (hn : n < 64) : ∃ alt, altOf mode n = some alt := by
  have htable : ∀ table : List (BitVec 32), table.length = 64 → ∃ alt, entry table n = some alt := by
    intro table hlength
    have hlt : n < table.length := hlength ▸ hn
    exact ⟨table[n], by rw [entry_natCast, List.getElem?_eq_getElem hlt]⟩
  cases mode with
  | input => exact ⟨0, rfl⟩
  | output => exact ⟨fselOutp, rfl⟩
  | pwmOutput | pwmToneOutput => exact htable gpioToPwmALT rfl
  | gpioClock => exact htable gpioToGpClkALT0 rfl

/-! ### PWM and clocks -/

/-- The PWM's words are not the pins'. -/
structure SamePins (b b' : Board) : Prop where
  setup : b'.toSetup = b.toSetup
  gpio : b'.gpio = b.gpio

theorem Becomes.same {b₁ : Board} (h : Becomes b l b₁) (hsame : SamePins b₁ b') : Becomes b l b' :=
  ⟨hsame.setup.trans h.setup, hsame.gpio ▸ h.pins, hsame.gpio ▸ h.outside⟩

theorem pwmSetMode_same (mode : Int) (b : Board) : SamePins b (pwmSetMode mode b) := by
  unfold pwmSetMode
  split_ifs <;> exact ⟨rfl, rfl⟩

theorem pwmSetRange_same (range : BitVec 32) (b : Board) : SamePins b (pwmSetRange range b) := by
  unfold pwmSetRange
  split_ifs <;> exact ⟨rfl, rfl⟩

theorem pwmSetClock_same (divisor : BitVec 32) (b : Board) : SamePins b (pwmSetClock divisor b) := by
  unfold pwmSetClock
  split_ifs <;> exact ⟨rfl, rfl⟩

theorem table_some {table : List Nat} (hlength : table.length = 64) {m : Nat} (hm : m < 64) :
    ∃ word, entry table m = some word := by
  have hlt : m < table.length := hlength ▸ hm
  exact ⟨table[m], by rw [entry_natCast, List.getElem?_eq_getElem hlt]⟩

/-- The number is translated again, and a number that names no pin is looked up beside the
tables of the clocks. -/
theorem gpioClockSet_same (hm : b.wiringPiMode ≠ .gpioSys) (hn : n < 60) (freq : Nat) :
    if inTables b.toSetup 64 n then ∃ b', gpioClockSet n freq b = some b' ∧ SamePins b b'
    else gpioClockSet n freq b = none := by
  have hon : onBoard (n : Int) = true := onBoard_iff.mpr ⟨by omega, by omega⟩
  have hmod : (n : Int) % 64 = n := by omega
  unfold gpioClockSet
  rw [if_neg hm, hmod]
  rcases @named b.toSetup n 64 (fun q => startClock q freq b) hm hon
      (fun q hq => by unfold startClock; rw [entry_neg _ hq]; rfl)
      (fun m hm => by unfold startClock; rw [entry_natCast, List.getElem?_eq_none hm]; rfl)
    with ⟨m, hlt, -, htable, hstart⟩ | ⟨htable, hstart⟩
  · obtain ⟨con, hcon⟩ := @table_some gpioToClkCon rfl m hlt
    obtain ⟨div, hdiv⟩ := @table_some gpioToClkDiv rfl m hlt
    rw [startClock, hcon, hdiv] at hstart
    rw [if_pos htable]
    exact ⟨_, hstart, rfl, rfl⟩
  · rw [if_neg (Bool.eq_false_iff.mp htable)]
    exact hstart

/-- The modes that are looked up: a pin that has none is left as it is. -/
theorem wanted_table {mode : PinMode} {alt : BitVec 32} (halt : altOf mode n = some alt) (hmode : mode ≠ .input) :
    wanted mode n = if alt = 0 then none else some alt := by
  unfold wanted
  rw [halt, Option.filter_some]
  by_cases hzero : alt = 0
  · rw [if_pos hzero, decide_eq_true ⟨hzero, hmode⟩]
    rfl
  · rw [if_neg hzero, decide_eq_false fun h => hzero h.1]
    rfl

theorem wanted_tone (n : Nat) : wanted .pwmToneOutput n = wanted .pwmOutput n := by
  simp [wanted, altOf]

theorem pwmOutput_becomes (hn : n < 60) : ∃ b', pwmOutput n b = some b' ∧
    Becomes b ((wanted .pwmOutput n).elim (pinsOf b.gpio) fun alt => (pinsOf b.gpio).setMode n (alt &&& 7)) b' := by
  obtain ⟨alt, halt⟩ := alt_some .pwmOutput (show n < 64 by omega)
  have hentry : entry gpioToPwmALT n = some alt := halt
  rw [wanted_table halt nofun, pwmOutput, hentry]
  by_cases hzero : alt = 0
  · rw [if_pos hzero]
    exact ⟨b, if_pos hzero, becomes_same b⟩
  · obtain ⟨b', hb', hbecomes⟩ := becomes_function (b := b) hn alt
    obtain ⟨g, hg, rfl⟩ := Option.map_eq_some_iff.mp hb'
    rw [if_neg hzero]
    refine ⟨_, (if_neg hzero).trans (by rw [hg]; rfl), ?_⟩
    exact ((hbecomes.same (pwmSetMode_same _ _)).same (pwmSetRange_same _ _)).same (pwmSetClock_same _ _)

theorem gpioClock_gives (hm : b.wiringPiMode ≠ .gpioSys) (hn : n < 60) :
    Gives b (clockInTables b.toSetup .gpioClock n)
      ((wanted .gpioClock n).elim (pinsOf b.gpio) fun alt => (pinsOf b.gpio).setMode n (alt &&& 7))
      (gpioClock n b) := by
  obtain ⟨alt, halt⟩ := alt_some .gpioClock (show n < 64 by omega)
  have hentry : entry gpioToGpClkALT0 n = some alt := halt
  unfold clockInTables
  rw [wanted_table halt nofun, gpioClock, hentry, decide_eq_false (not_not.mpr rfl), Bool.false_or]
  by_cases hzero : alt = 0
  · rw [if_pos hzero]
    exact ⟨b, if_pos hzero, becomes_same b⟩
  · obtain ⟨b', hb', hbecomes⟩ := becomes_function (b := b) hn alt
    obtain ⟨g, hg, rfl⟩ := Option.map_eq_some_iff.mp hb'
    have hclock := @gpioClockSet_same (b.withGpio g) n hm hn 100000
    rw [if_neg hzero, Option.isNone_some, Bool.false_or, Option.bind_eq_bind, Option.bind_some, if_neg hzero, hg]
    cases htable : inTables b.toSetup 64 n with
    | false => exact (if_neg (Bool.eq_false_iff.mp htable)).mp hclock
    | true =>
      obtain ⟨b', hb', hsame⟩ := (if_pos htable).mp hclock
      exact ⟨b', hb', hbecomes.same hsame⟩

theorem pinMode_gives (mode : PinMode) :
    Gives b (inTables b.toSetup 60 pin && takes b.toSetup (clockInTables b.toSetup mode) pin)
      ((pinsOf b.gpio).step b.toSetup (.pinMode pin mode)) (pinMode pin mode b) := by
  refine gives_at_pin (fun q hq => ?_) (fun n hn => ?_) fun hm n hn => ?_
  · rw [entry_neg _ hq]
    rfl
  · rw [entry_natCast, getElem?_gpioToGPFSEL, if_neg (Nat.not_lt.mpr hn)]
    rfl
  · rw [entry_natCast, getElem?_gpioToGPFSEL, if_pos hn, Option.bind_eq_bind, Option.bind_some]
    cases mode with
    | input => exact becomes_function hn 0
    | output => exact becomes_function hn fselOutp
    | pwmOutput => exact pwmOutput_becomes hn
    | pwmToneOutput =>
      obtain ⟨b', hb', hbecomes⟩ := pwmOutput_becomes (b := b) hn
      rw [wanted_tone]
      exact ⟨_, by rw [hb']; rfl, hbecomes.same (pwmSetMode_same _ _)⟩
    | gpioClock => exact gpioClock_gives hm hn

theorem entry_rows (a : Nat) (hn : n < 64) :
    entry (List.replicate 32 a ++ List.replicate 32 (a + 1)) n = some (a + n / 32) := by
  rw [entry_natCast, getElem?_rows a hn]

theorem entry_rows_beside (a : Nat) (hn : 64 ≤ n) :
    entry (List.replicate 32 a ++ List.replicate 32 (a + 1)) n = none := by
  rw [entry_natCast, List.getElem?_eq_none (by simpa using hn)]

theorem pullUpDnControl_gives (pud : BitVec 32) : Gives b (inTables b.toSetup 64 pin)
    ((pinsOf b.gpio).step b.toSetup (.pullUpDnControl pin pud)) (pullUpDnControl pin pud b) := by
  refine gives_at_any (fun q hq => ?_) (fun n hn => ?_) fun n hn => ?_
  · rw [entry_neg _ hq]
    rfl
  · rw [gpioToPUDCLK, entry_rows_beside 38 hn]
    rfl
  · rw [gpioToPUDCLK, entry_rows 38 hn]
    refine ⟨_, rfl, becomes_gpio (pins_pull b.gpio hn (pud &&& 3)) ?_⟩
    simp only [write_outside]

/-! ### Levels -/

theorem pins_level (g : Gpio) (hn : n < 64) (on : Bool) :
    pinsOf (g.write ((if on then 7 else 10) + n / 32) (1#32 <<< (n &&& 31))) = (pinsOf g).setLevel n on := by
  cases on with
  | true => exact pins_set g hn
  | false => exact pins_clear g hn

theorem pins_sysWrite (g : Gpio) (n : Nat) (on : Bool) : pinsOf (g.sysWrite n on) =
    if g.function n = fselOutp then (pinsOf g).setLevel n on else pinsOf g := by
  unfold Gpio.sysWrite
  split <;> rfl

theorem sysWrite_outside (g : Gpio) (n : Nat) (on : Bool) : (g.sysWrite n on).outside = g.outside := by
  unfold Gpio.sysWrite
  split <;> rfl

theorem driven_mapped (hm : b.wiringPiMode ≠ .gpioSys) (n : Nat) : l.driven b.toSetup n = true := by
  unfold Pins.driven
  rw [decide_eq_true hm]
  rfl

theorem driven_sys (hm : b.wiringPiMode = .gpioSys) (n : Nat) :
    l.driven b.toSetup n = (b.sysFds n && decide (l.mode n = fselOutp)) := by
  unfold Pins.driven
  rw [decide_eq_false (not_not.mpr hm)]
  rfl

/-- A write to a value file -/
theorem becomes_sys (hm : b.wiringPiMode = .gpioSys) (n : Nat) (on : Bool) :
    Becomes b (if (pinsOf b.gpio).driven b.toSetup n then (pinsOf b.gpio).setLevel n on else pinsOf b.gpio)
      (if b.sysFds n then b.withGpio (b.gpio.sysWrite n on) else b) := by
  rw [driven_sys hm]
  cases b.sysFds n with
  | false => exact becomes_same b
  | true =>
    refine becomes_gpio ((pins_sysWrite b.gpio n on).trans ?_) (sysWrite_outside ..)
    by_cases hf : b.gpio.function n = fselOutp
    · have hmode : (pinsOf b.gpio).mode n = fselOutp := hf
      rw [if_pos hf, decide_eq_true hmode]
      rfl
    · have hmode : ¬ (pinsOf b.gpio).mode n = fselOutp := hf
      rw [if_neg hf, decide_eq_false hmode]
      rfl

theorem numberOf_sys (hm : b.wiringPiMode = .gpioSys) (hon : onBoard pin = true) :
    numberOf b.toSetup pin = some pin.toNat := by
  have hq : b.translate pin = some pin := by
    unfold Setup.translate
    rw [hm]
  rw [numberOf_on hon hq, if_pos (onBoard_iff.mp hon).1]

theorem digitalWrite_gives (value : BitVec 32) : Gives b (inTables b.toSetup 64 pin)
    ((pinsOf b.gpio).drive b.toSetup pin (decide (value ≠ 0))) (digitalWrite pin value b) := by
  by_cases hm : b.wiringPiMode = .gpioSys
  · have htable : inTables b.toSetup 64 pin = true := by
      unfold inTables
      rw [decide_eq_true hm]
      rfl
    rw [htable]
    unfold digitalWrite Pins.drive
    by_cases hon : onBoard pin = true
    · rw [if_pos hon, if_pos hm, numberOf_sys hm hon, Option.elim_some]
      refine ⟨_, ?_, becomes_sys hm pin.toNat (decide (value ≠ 0))⟩
      split <;> rfl
    · have hnumber : numberOf b.toSetup pin = none := if_neg hon
      rw [if_neg hon, hnumber]
      exact ⟨b, rfl, becomes_same b⟩
  · have hdrive : (pinsOf b.gpio).drive b.toSetup pin (decide (value ≠ 0)) =
        (pinsOf b.gpio).atPin b.toSetup pin fun n => (pinsOf b.gpio).setLevel n (decide (value ≠ 0)) := by
      simp only [Pins.drive, Pins.atPin, if_neg hm, driven_mapped hm, if_true]
    have hrun : digitalWrite pin value b = if onBoard pin then if b.wiringPiMode = .gpioSys then some b else
        (b.translate pin).bind fun q => (entry (if value = 0 then gpioToGPCLR else gpioToGPSET) q).bind
          fun word => some (b.withGpio (b.gpio.write word (1#32 <<< (q.toNat &&& 31)))) else some b := by
      unfold digitalWrite
      rw [if_neg hm, if_neg hm]
      rfl
    rw [hdrive, hrun]
    refine gives_at_any (fun q hq => ?_) (fun n hn => ?_) fun n hn => ?_
    · rw [entry_neg _ hq]
      rfl
    · split
      · rw [gpioToGPCLR, entry_rows_beside 10 hn]
        rfl
      · rw [gpioToGPSET, entry_rows_beside 7 hn]
        rfl
    · have hword : entry (if value = 0 then gpioToGPCLR else gpioToGPSET) n =
          some ((if decide (value ≠ 0) then 7 else 10) + n / 32) := by
        by_cases hv : value = 0
        · rw [if_pos hv, gpioToGPCLR, entry_rows 10 hn, decide_eq_false (not_not.mpr hv)]
          rfl
        · rw [if_neg hv, gpioToGPSET, entry_rows 7 hn, decide_eq_true hv]
          rfl
      rw [hword]
      exact ⟨_, rfl, becomes_gpio (pins_level b.gpio hn _) (write_outside ..)⟩

end Step

end SmartPrince.Wiring.OnBoardPins

import SmartPrince.Wiring.OnBoardPins

/-! # Eight pins at a time

`digitalWriteByte` and `digitalWriteByte2` clear and set their pins with two
words, or write the value files one after the other. Either way they do what
eight writes of single pins do. -/
namespace SmartPrince.Wiring.OnBoardBytes
open SmartPrince.Lib.Register SmartPrince.Wiring.Nodes SmartPrince.Wiring.OnBoard
open SmartPrince.Wiring.PinSettings SmartPrince.Wiring.OnBoardRegisters SmartPrince.Wiring.OnBoardPins

section Bytes
variable {b b' : Board} {n : Nat}

/-! ## The pins -/

theorem bytePin_entry (layout : Layout) {k : Nat} (hk : k < 8) :
    entry layout.pinToGpio k = some (bytePin layout k : Int) := by
  have htable : ∀ layout : Layout, ∀ k : Nat, k < 8 →
      entry layout.pinToGpio k = some (bytePin layout k : Int) :=
    fun layout => by cases layout <;> decide
  exact htable layout k hk

theorem bytePin_lt (layout : Layout) {k : Nat} (hk : k < 8) : bytePin layout k < 32 := by
  have htable : ∀ layout : Layout, ∀ k < 8, bytePin layout k < 32 := fun layout => by
    cases layout <;> decide
  exact htable layout k hk

/-- The eight pins are eight. -/
theorem bytePin_inj (layout : Layout) {j k : Nat} (hj : j < 8) (hk : k < 8)
    (h : bytePin layout j = bytePin layout k) : j = k := by
  have htable : ∀ layout : Layout, ∀ j < 8, ∀ k < 8, bytePin layout j = bytePin layout k → j = k :=
    fun layout => by cases layout <;> decide
  exact htable layout j hj k hk h

section Bits
variable {lines : Nat → Nat} {value : BitVec 32} {p : Nat}

theorem bitFor_at (hinj : ∀ j < n, ∀ k < n, lines j = lines k → j = k) {k : Nat} (hk : k < n) :
    bitFor lines value n (lines k) = some (value.getLsbD k) := by
  unfold bitFor
  cases hfind : (List.range n).find? fun j => decide (lines j = lines k) with
  | none =>
    have := List.find?_eq_none.mp hfind k (List.mem_range.mpr hk)
    simp at this
  | some j =>
    have hj := List.mem_range.mp (List.mem_of_find?_eq_some hfind)
    have hline := List.find?_some hfind
    rw [hinj j hj k hk (by simpa using hline)]
    rfl

theorem bitFor_apart (h : ∀ k < n, lines k ≠ p) : bitFor lines value n p = none := by
  unfold bitFor
  rw [List.find?_eq_none.mpr fun k hk => by simpa using h k (List.mem_range.mp hk)]
  rfl

/-! ## Two words for a byte -/

theorem hits_first (base : Nat) (word : BitVec 32) (p : Nat) :
    hits base base word p = word.getLsbD p := by
  unfold hits
  by_cases hp : p < 32
  · rw [decide_eq_true (by omega), decide_eq_true (by omega), Nat.mod_eq_of_lt hp]
    rfl
  · rw [decide_eq_false (by omega), BitVec.getLsbD_of_ge _ _ (Nat.le_of_not_lt hp)]
    rfl

/-- A word that clears and one that sets -/
theorem pins_byte (g : Gpio) {clr set : BitVec 32} (hinj : ∀ j < 8, ∀ k < 8, lines j = lines k → j = k)
    (hclr : ∀ p, clr.getLsbD p = true ↔ ∃ k < 8, lines k = p ∧ value.getLsbD k = false)
    (hset : ∀ p, set.getLsbD p = true ↔ ∃ k < 8, lines k = p ∧ value.getLsbD k = true) :
    pinsOf ((g.write 10 clr).write 7 set) =
      ⟨g.function, fun p => (bitFor lines value 8 p).getD (g.latch p), g.pull⟩ := by
  rw [pins_levels _ (by decide) (by decide)]
  refine Pins.ext (fun p => congrFun (write_function_other g (by decide) clr) p) (fun p => ?_) fun p => ?_
  · dsimp only
    rw [write_latch _ (by decide), write_latch _ (by decide), hits_first, hits_first,
      hits_other (by decide), hits_other (by decide)]
    by_cases hline : ∃ k < 8, lines k = p
    · obtain ⟨k, hk, rfl⟩ := hline
      have hbit : ∀ {on : Bool}, (∃ j < 8, lines j = lines k ∧ value.getLsbD j = on) →
          value.getLsbD k = on := by
        intro on ⟨j, hj, hjk, hon⟩
        exact hinj j hj k hk hjk ▸ hon
      rw [bitFor_at hinj hk]
      cases hon : value.getLsbD k with
      | true =>
        rw [(hset _).mpr ⟨k, hk, rfl, hon⟩]
        rfl
      | false =>
        have hnot : set.getLsbD (lines k) = false := Bool.eq_false_iff.mpr fun h => by
          rw [hbit ((hset _).mp h)] at hon
          cases hon
        rw [hnot, (hclr _).mpr ⟨k, hk, rfl, hon⟩]
        rfl
    · have hapart : ∀ k < 8, lines k ≠ p := fun k hk hline' => hline ⟨k, hk, hline'⟩
      have hset' : set.getLsbD p = false := Bool.eq_false_iff.mpr fun h => by
        obtain ⟨k, hk, hkp, -⟩ := (hset p).mp h
        exact hapart k hk hkp
      have hclr' : clr.getLsbD p = false := Bool.eq_false_iff.mpr fun h => by
        obtain ⟨k, hk, hkp, -⟩ := (hclr p).mp h
        exact hapart k hk hkp
      rw [bitFor_apart hapart, hset', hclr']
      rfl
  · dsimp only
    rw [write_pull _ (by decide), hits_other (by decide)]
    rfl

theorem setBits_mapped (hm : b.wiringPiMode ≠ .gpioSys) (l : Pins) (n : Nat) :
    l.setBits b.toSetup lines value n =
      ⟨l.mode, fun p => (bitFor lines value n p).getD (l.level p), l.pull⟩ := by
  unfold Pins.setBits
  simp only [driven_mapped hm, if_true]

theorem byteMasks_spec (layout : Layout) (value : BitVec 32) (hn : n ≤ 8) :
    ∃ clr set, byteMasks layout.pinToGpio value n = some (clr, set) ∧
      (∀ p, clr.getLsbD p = true ↔ ∃ k < n, bytePin layout k = p ∧ value.getLsbD k = false) ∧
      ∀ p, set.getLsbD p = true ↔ ∃ k < n, bytePin layout k = p ∧ value.getLsbD k = true := by
  induction n with
  | zero => exact ⟨0, 0, rfl, by simp, by simp⟩
  | succ n ih =>
    obtain ⟨clr, set, hmasks, hclr, hset⟩ := ih (Nat.le_of_succ_le hn)
    -- one bit goes to one of the words
    have hadd : ∀ (word : BitVec 32) (on : Bool) (p : Nat), value.getLsbD n = on →
        (word.getLsbD p = true ↔ ∃ k < n, bytePin layout k = p ∧ value.getLsbD k = on) →
        ((word ||| 1#32 <<< bytePin layout n).getLsbD p = true ↔
          ∃ k < n + 1, bytePin layout k = p ∧ value.getLsbD k = on) := by
      intro word on p hon hword
      have hlt := bytePin_lt layout hn
      have hbit : (1#32 <<< bytePin layout n).getLsbD p = decide (p = bytePin layout n) := by
        rw [← Bool.coe_iff_coe]
        simp
        omega
      rw [BitVec.getLsbD_or, Bool.or_eq_true, hword, hbit, decide_eq_true_eq]
      constructor
      · rintro (⟨k, hk, hkp⟩ | rfl)
        · exact ⟨k, Nat.lt_succ_of_lt hk, hkp⟩
        · exact ⟨n, Nat.lt_succ_self n, rfl, hon⟩
      · rintro ⟨k, hk, hkp, hkon⟩
        rcases Nat.lt_succ_iff_lt_or_eq.mp hk with hk | rfl
        · exact .inl ⟨k, hk, hkp, hkon⟩
        · exact .inr hkp.symm
    have hkeep : ∀ (word : BitVec 32) (on : Bool) (p : Nat), value.getLsbD n = !on →
        (word.getLsbD p = true ↔ ∃ k < n, bytePin layout k = p ∧ value.getLsbD k = on) →
        (word.getLsbD p = true ↔ ∃ k < n + 1, bytePin layout k = p ∧ value.getLsbD k = on) := by
      intro word on p hon hword
      rw [hword]
      constructor
      · rintro ⟨k, hk, hkp⟩
        exact ⟨k, Nat.lt_succ_of_lt hk, hkp⟩
      · rintro ⟨k, hk, hkp, hkon⟩
        rcases Nat.lt_succ_iff_lt_or_eq.mp hk with hk | rfl
        · exact ⟨k, hk, hkp, hkon⟩
        · rw [hon] at hkon
          cases on <;> cases hkon
    unfold byteMasks
    rw [hmasks, bytePin_entry layout hn]
    cases hon : value.getLsbD n with
    | false =>
      refine ⟨clr ||| 1#32 <<< bytePin layout n, set, ?_, fun p => hadd clr false p hon (hclr p),
        fun p => hkeep set true p hon (hset p)⟩
      exact if_pos ((and_bit_eq_zero value (by omega)).mpr hon)
    | true =>
      refine ⟨clr, set ||| 1#32 <<< bytePin layout n, ?_, fun p => hkeep clr false p hon (hclr p),
        fun p => hadd set true p hon (hset p)⟩
      refine if_neg fun h => ?_
      rw [(and_bit_eq_zero value (by omega)).mp h] at hon
      cases hon

/-! ## One pin after the other -/

theorem setBits_zero (s : Setup) (l : Pins) : l.setBits s lines value 0 = l := by
  unfold Pins.setBits
  refine Pins.ext (fun p => rfl) (fun p => ite_self _) fun p => rfl

theorem setBits_succ (hinj : ∀ j < n + 1, ∀ k < n + 1, lines j = lines k → j = k) (s : Setup) (l : Pins) :
    l.setBits s lines value (n + 1) =
      if (l.setBits s lines value n).driven s (lines n) then
        (l.setBits s lines value n).setLevel (lines n) (value.getLsbD n)
      else l.setBits s lines value n := by
  have hdriven : ∀ p, (l.setBits s lines value n).driven s p = l.driven s p := fun p => rfl
  have hbit : ∀ p, p ≠ lines n → bitFor lines value (n + 1) p = bitFor lines value n p := by
    intro p hp
    unfold bitFor
    rw [List.range_succ, List.find?_append, List.find?_cons, decide_eq_false fun h => hp h.symm]
    simp
  rw [hdriven]
  refine Pins.ext (fun p => ?_) (fun p => ?_) fun p => ?_
  · split <;> rfl
  · show (if l.driven s p then (bitFor lines value (n + 1) p).getD (l.level p) else l.level p) = _
    by_cases hp : p = lines n
    · subst hp
      rw [bitFor_at hinj (Nat.lt_succ_self n)]
      cases hd : l.driven s (lines n) with
      | true =>
        rw [if_pos rfl, if_pos rfl]
        dsimp only [Pins.setLevel]
        rw [Function.update_self]
        rfl
      | false =>
        show l.level (lines n) = if l.driven s (lines n) then _ else l.level (lines n)
        rw [hd]
        rfl
    · rw [hbit p hp]
      cases l.driven s (lines n) with
      | true =>
        rw [if_pos rfl]
        dsimp only [Pins.setLevel]
        rw [Function.update_of_ne hp]
        rfl
      | false => rfl
  · split <;> rfl

theorem writeBits_becomes (hm : b.wiringPiMode = .gpioSys) {pinOf : Nat → Option Int} (hn : n ≤ 8)
    (hlines : ∀ k < 8, pinOf k = some (lines k : Int) ∧ lines k < 64)
    (hinj : ∀ j < 8, ∀ k < 8, lines j = lines k → j = k) : ∃ b', writeBits pinOf value n b = some b' ∧
      Becomes b ((pinsOf b.gpio).setBits b.toSetup lines value n) b' := by
  induction n with
  | zero =>
    rw [setBits_zero]
    exact ⟨b, rfl, becomes_same b⟩
  | succ n ih =>
    obtain ⟨b₁, hrun, hbecomes⟩ := ih (Nat.le_of_succ_le hn)
    obtain ⟨hpin, hlt⟩ := hlines n hn
    have hm₁ : b₁.wiringPiMode = .gpioSys := (congrArg Setup.wiringPiMode hbecomes.setup).trans hm
    have hon : onBoard (lines n : Int) = true := onBoard_iff.mpr ⟨by omega, by omega⟩
    have hbit : decide (value &&& 1#32 <<< n ≠ 0) = value.getLsbD n := by
      simp only [ne_eq, and_bit_eq_zero value (show n < 32 by omega)]
      cases value.getLsbD n <;> rfl
    have hdigital := @digitalWrite_gives b₁ (lines n) (value &&& 1#32 <<< n)
    have htable : inTables b₁.toSetup 64 (lines n : Int) = true := by
      unfold inTables
      rw [decide_eq_true hm₁]
      rfl
    rw [htable, hbit, Pins.drive, numberOf_sys hm₁ hon, Option.elim_some, Int.toNat_natCast,
      hbecomes.pins, hbecomes.setup] at hdigital
    obtain ⟨b', hb', hlast⟩ := hdigital
    refine ⟨b', ?_, hlast.setup.trans hbecomes.setup, ?_, hlast.outside.trans hbecomes.outside⟩
    · unfold writeBits
      rw [hrun, hpin]
      exact hb'
    · rw [hlast.pins, setBits_succ fun j hj k hk => hinj j (by omega) k (by omega)]

end Bits

theorem digitalWriteByte_becomes (value : BitVec 32) : ∃ b', digitalWriteByte value b = some b' ∧
    Becomes b ((pinsOf b.gpio).setBits b.toSetup (bytePin b.layout) value 8) b' := by
  unfold digitalWriteByte
  have hinj : ∀ j < 8, ∀ k < 8, bytePin b.layout j = bytePin b.layout k → j = k :=
    fun j hj k hk => bytePin_inj b.layout hj hk
  by_cases hm : b.wiringPiMode = .gpioSys
  · rw [if_pos hm]
    refine writeBits_becomes hm (Nat.le_refl 8) (fun k hk => ⟨bytePin_entry b.layout hk, ?_⟩) hinj
    exact Nat.lt_trans (bytePin_lt b.layout hk) (by decide)
  · obtain ⟨clr, set, hmasks, hclr, hset⟩ := byteMasks_spec b.layout value (Nat.le_refl 8)
    rw [if_neg hm, hmasks, setBits_mapped hm]
    exact ⟨_, rfl, becomes_gpio (pins_byte b.gpio hinj hclr hset) (by rw [write_outside, write_outside])⟩

theorem digitalWriteByte2_becomes (value : BitVec 32) : ∃ b', digitalWriteByte2 value b = some b' ∧
    Becomes b ((pinsOf b.gpio).setBits b.toSetup (20 + ·) value 8) b' := by
  unfold digitalWriteByte2
  have hinj : ∀ j < 8, ∀ k < 8, 20 + j = 20 + k → j = k := by omega
  by_cases hm : b.wiringPiMode = .gpioSys
  · rw [if_pos hm]
    exact writeBits_becomes hm (Nat.le_refl 8) (fun k hk => ⟨rfl, by omega⟩) hinj
  · have hbits : ∀ (word : BitVec 32) (p : Nat), ((word &&& 0xFF) <<< 20).getLsbD p = true ↔
        ∃ k < 8, 20 + k = p ∧ word.getLsbD k = true := by
      intro word p
      have hmask : ∀ i, (0xFF : BitVec 32).getLsbD i = decide (i < 8) := fun i =>
        (getLsbD_ones 8 i).trans (by by_cases hi : i < 8 <;> simp [hi]; omega)
      rw [BitVec.getLsbD_shiftLeft, BitVec.getLsbD_and, hmask]
      simp only [Bool.and_eq_true, Bool.not_eq_true', decide_eq_true_eq, decide_eq_false_iff_not]
      constructor
      · rintro ⟨⟨-, hlo⟩, hbit, hhi⟩
        exact ⟨p - 20, hhi, by omega, hbit⟩
      · rintro ⟨k, hk, rfl, hbit⟩
        exact ⟨⟨by omega, by omega⟩, by rwa [Nat.add_sub_cancel_left], by omega⟩
    rw [if_neg hm, setBits_mapped hm]
    refine ⟨_, rfl, becomes_gpio (pins_byte b.gpio hinj (fun p => ?_) (hbits value)) (by rw [write_outside, write_outside])⟩
    rw [hbits]
    constructor
    · rintro ⟨k, hk, hkp, hbit⟩
      exact ⟨k, hk, hkp, by simpa [show k < 32 by omega] using hbit⟩
    · rintro ⟨k, hk, hkp, hbit⟩
      exact ⟨k, hk, hkp, by simpa [show k < 32 by omega] using hbit⟩

end Bytes

end SmartPrince.Wiring.OnBoardBytes

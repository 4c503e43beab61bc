import Mathlib.Data.List.Induction
import SmartPrince.Wiring.SoftServo

/-! # Every servo has its pulse

In each frame each pin of a servo goes up at the start and down after the width
that was last asked for its number, and nothing else is written. -/
namespace SmartPrince.Wiring.SoftServoSoundness
open SmartPrince.Lib.Loop SmartPrince.Lib.GapSort SmartPrince.Wiring.SoftServo

/-! ## A frame of sorted pulses -/

section Frame
variable (a : Nat → Int × Int)

/-- The last delay of the pins before turn `n` -/
def lastOf : Nat → Int
  | 0 => 0
  | n + 1 => if (a n).2 = -1 then lastOf n else (a n).1

def ons (n : Nat) : List Signal :=
  (List.range n).flatMap fun i => if (a i).2 = -1 then [] else [.digitalWrite (a i).2 true]

def offs (n : Nat) : List Signal :=
  (List.range n).flatMap fun i => if (a i).2 = -1 then []
    else [.delayMicroseconds ((a i).1 - lastOf a i), .digitalWrite (a i).2 false]

structure TurnedOn (n : Nat) (s : Turning) : Prop where
  lastDelay : s.lastDelay = lastOf a n
  myDelays : ∀ i, s.myDelays i = if i < n ∧ (a i).2 ≠ -1 then (a i).1 - lastOf a i else (a i).1
  out : s.out = ons a n

theorem turnedOn_loop (n : Nat) :
    TurnedOn a n (loop n (turnOn fun i => (a i).2) ⟨0, fun i => (a i).1, []⟩) := by
  refine loop_inv (TurnedOn a) ⟨rfl, fun i => rfl, rfl⟩ fun k s _ h => ?_
  have hout : ons a (k + 1) = ons a k ++ if (a k).2 = -1 then [] else [.digitalWrite (a k).2 true] := by
    rw [ons, List.range_succ, List.flatMap_append, List.flatMap_singleton]
    rfl
  unfold turnOn
  by_cases hpin : (a k).2 = -1
  · rw [if_pos hpin]
    refine ⟨h.lastDelay.trans (if_pos hpin).symm, fun i => ?_, ?_⟩
    · rw [h.myDelays]
      by_cases hi : i = k
      · subst hi
        rw [if_neg fun hc => hc.2 hpin, if_neg fun hc => hc.2 hpin]
      · simp only [show i < k + 1 ↔ i < k by omega]
    · rw [hout, if_pos hpin, List.append_nil]
      exact h.out
  · rw [if_neg hpin]
    have hdelay : s.myDelays k = (a k).1 := (h.myDelays k).trans (if_neg fun hc => Nat.lt_irrefl k hc.1)
    refine ⟨?_, fun i => ?_, ?_⟩
    · refine Eq.trans ?_ (if_neg hpin).symm
      dsimp only
      rw [hdelay]
      omega
    · dsimp only
      rw [Function.update_apply, hdelay, h.lastDelay]
      by_cases hi : i = k
      · subst hi
        rw [if_pos rfl, if_pos ⟨Nat.lt_succ_self i, hpin⟩]
      · rw [if_neg hi, h.myDelays]
        simp only [show i < k + 1 ↔ i < k by omega]
    · rw [hout, if_neg hpin, ← h.out]

theorem frame_eq (n : Nat) : (loop n (turnOff fun i => (a i).2)
    (loop n (turnOn fun i => (a i).2) ⟨0, fun i => (a i).1, []⟩)).out = ons a n ++ offs a n := by
  have hon := turnedOn_loop a n
  generalize loop n (turnOn fun i => (a i).2) ⟨0, fun i => (a i).1, []⟩ = s at hon
  have hoff : ∀ k, k ≤ n → (loop k (turnOff fun i => (a i).2) s).out = ons a n ++ offs a k ∧
      (loop k (turnOff fun i => (a i).2) s).myDelays = s.myDelays := by
    intro k hk
    induction k with
    | zero => exact ⟨hon.out.trans (List.append_nil _).symm, rfl⟩
    | succ k ih =>
      obtain ⟨hout, hdelays⟩ := ih (Nat.le_of_succ_le hk)
      have hnext : offs a (k + 1) = offs a k ++ if (a k).2 = -1 then []
          else [.delayMicroseconds ((a k).1 - lastOf a k), .digitalWrite (a k).2 false] := by
        rw [offs, List.range_succ, List.flatMap_append, List.flatMap_singleton]
        rfl
      rw [loop_succ, turnOff, hnext]
      by_cases hpin : (a k).2 = -1
      · rw [if_pos hpin, if_pos hpin, List.append_nil]
        exact ⟨hout, hdelays⟩
      · rw [if_neg hpin, if_neg hpin]
        refine ⟨?_, hdelays⟩
        dsimp only
        rw [hout, hdelays, hon.myDelays, if_pos ⟨hk, hpin⟩, List.append_assoc]
  exact (hoff n (Nat.le_refl n)).1

/-! ## When what is written -/

variable {a} {n : Nat}

theorem duration_ons (n : Nat) : duration (ons a n) = 0 := by
  induction n with
  | zero => rfl
  | succ n ih =>
    rw [ons, List.range_succ, List.flatMap_append, List.flatMap_singleton, duration_append]
    rw [show duration ((List.range n).flatMap _) = 0 from ih]
    split <;> rfl

theorem mem_timed_ons {t p : Int} {high : Bool} : (t, p, high) ∈ timed 0 (ons a n) ↔
    ∃ i, i < n ∧ (a i).2 = p ∧ p ≠ -1 ∧ high = true ∧ t = 0 := by
  induction n with
  | zero => simp [ons, timed]
  | succ n ih =>
    have hstep : timed 0 (ons a (n + 1)) = timed 0 (ons a n) ++
        if (a n).2 = -1 then [] else [(0, (a n).2, true)] := by
      rw [ons, List.range_succ, List.flatMap_append, List.flatMap_singleton, timed_append]
      rw [show duration ((List.range n).flatMap _) = 0 from duration_ons n]
      split <;> rfl
    rw [hstep, List.mem_append, ih]
    constructor
    · rintro (⟨i, hi, h⟩ | h)
      · exact ⟨i, Nat.lt_succ_of_lt hi, h⟩
      · split at h
        case isTrue => cases h
        case isFalse hpin =>
          cases List.mem_singleton.mp h
          exact ⟨n, Nat.lt_succ_self n, rfl, hpin, rfl, rfl⟩
    · rintro ⟨i, hi, rfl, hpin, rfl, rfl⟩
      rcases Nat.lt_succ_iff_lt_or_eq.mp hi with hi | rfl
      · exact .inl ⟨i, hi, rfl, hpin, rfl, rfl⟩
      · rw [if_neg hpin]
        exact .inr List.mem_cons_self

/-- The waits add up to the width of the pin that comes next. -/
theorem duration_offs (n : Nat) : duration (offs a n) = lastOf a n := by
  induction n with
  | zero => rfl
  | succ n ih =>
    rw [offs, List.range_succ, List.flatMap_append, List.flatMap_singleton, duration_append]
    rw [show duration ((List.range n).flatMap _) = lastOf a n from ih, lastOf]
    split
    · exact Int.add_zero _
    · simp only [duration]
      omega

theorem mem_timed_offs {t p : Int} {high : Bool} : (t, p, high) ∈ timed 0 (offs a n) ↔
    ∃ i, i < n ∧ (a i).2 = p ∧ p ≠ -1 ∧ high = false ∧ t = (a i).1 := by
  induction n with
  | zero => simp [offs, timed]
  | succ n ih =>
    have hstep : timed 0 (offs a (n + 1)) = timed 0 (offs a n) ++
        if (a n).2 = -1 then [] else [((a n).1, (a n).2, false)] := by
      rw [offs, List.range_succ, List.flatMap_append, List.flatMap_singleton, timed_append]
      rw [show duration ((List.range n).flatMap _) = lastOf a n from duration_offs n]
      split
      · rfl
      · simp only [timed, show 0 + lastOf a n + ((a n).1 - lastOf a n) = (a n).1 by omega]
        rfl
    rw [hstep, List.mem_append, ih]
    constructor
    · rintro (⟨i, hi, h⟩ | h)
      · exact ⟨i, Nat.lt_succ_of_lt hi, h⟩
      · split at h
        case isTrue => cases h
        case isFalse hpin =>
          cases List.mem_singleton.mp h
          exact ⟨n, Nat.lt_succ_self n, rfl, hpin, rfl, rfl⟩
    · rintro ⟨i, hi, rfl, hpin, rfl, rfl⟩
      rcases Nat.lt_succ_iff_lt_or_eq.mp hi with hi | rfl
      · exact .inl ⟨i, hi, rfl, hpin, rfl, rfl⟩
      · rw [if_neg hpin]
        exact .inr List.mem_cons_self

/-! ## The waits -/

theorem lastOf_bounds {lo hi : Int} (hlo : lo ≤ 0) (hhi : 0 ≤ hi) (hbound : ∀ i < n, lo ≤ (a i).1 ∧ (a i).1 ≤ hi) :
    lo ≤ lastOf a n ∧ lastOf a n ≤ hi := by
  induction n with
  | zero => exact ⟨hlo, hhi⟩
  | succ n ih =>
    rw [lastOf]
    split
    · exact ih fun i hi => hbound i (Nat.lt_succ_of_lt hi)
    · exact hbound n (Nat.lt_succ_self n)

theorem mem_delays {d : Int} : .delayMicroseconds d ∈ ons a n ++ offs a n ↔
    ∃ i, i < n ∧ (a i).2 ≠ -1 ∧ d = (a i).1 - lastOf a i := by
  have hons : .delayMicroseconds d ∉ ons a n := by
    intro h
    obtain ⟨i, -, hi⟩ := List.mem_flatMap.mp h
    split at hi
    · cases hi
    · cases List.mem_singleton.mp hi
  rw [List.mem_append, or_iff_right hons, offs, List.mem_flatMap]
  constructor
  · rintro ⟨i, hi, hd⟩
    split at hd
    case isTrue => cases hd
    case isFalse hpin =>
      rcases List.mem_cons.mp hd with hd | hd
      · cases hd
        exact ⟨i, List.mem_range.mp hi, hpin, rfl⟩
      · cases List.mem_singleton.mp hd
  · rintro ⟨i, hi, hpin, rfl⟩
    refine ⟨i, List.mem_range.mpr hi, ?_⟩
    rw [if_neg hpin]
    exact List.mem_cons_self

/-- In a sorted array no wait is negative. -/
theorem lastOf_le (hsorted : Sorted Prod.fst n a) (hpos : ∀ i < n, 0 ≤ (a i).1) {i : Nat} (hi : i < n) :
    0 ≤ lastOf a i ∧ lastOf a i ≤ (a i).1 :=
  lastOf_bounds (Int.le_refl 0) (hpos i hi) fun j hj =>
    ⟨hpos j (Nat.lt_trans hj hi), hsorted j i hj hi⟩

end Frame

/-! ## Runs -/

/-- The width that was last asked for a pin of the set-up -/
def lastPulse (p : Int) (writes : List (Int × Int)) : Int :=
  writes.foldl (fun width w => if p = w.1 % 64 then limited w.2 + 1000 else width) 1500

/-- The servos after the set-up and writes of values to pins -/
def servosAfter (p : Nat → Int) (writes : List (Int × Int)) : Servos :=
  writes.foldl (fun s w => softServoWrite w.1 w.2 s) (softServoSetup p).2

theorem softServoWrite_width (servoPin value : Int) (s : Servos) {servo : Nat} (h : servo < maxServos) :
    (softServoWrite servoPin value s).pulseWidth servo =
      if s.pinMap servo = servoPin % 64 then limited value + 1000 else s.pulseWidth servo := by
  unfold softServoWrite
  simp only [h, true_and]

theorem servosAfter_spec (p : Nat → Int) (writes : List (Int × Int)) : (servosAfter p writes).pinMap = p ∧
    ∀ servo < maxServos, (servosAfter p writes).pulseWidth servo = lastPulse (p servo) writes := by
  unfold servosAfter lastPulse
  induction writes using List.reverseRecOn with
  | nil => exact ⟨rfl, fun servo _ => rfl⟩
  | append_singleton writes w ih =>
    obtain ⟨hpins, hwidths⟩ := ih
    rw [List.foldl_concat]
    refine ⟨hpins, fun servo hservo => ?_⟩
    rw [List.foldl_concat, ← hwidths servo hservo, softServoWrite_width _ _ _ hservo, hpins]

theorem limited_bounds (value : Int) : -250 ≤ limited value ∧ limited value ≤ 1250 := by
  unfold limited
  split
  · omega
  · split <;> omega

theorem lastPulse_bounds (p : Int) (writes : List (Int × Int)) :
    750 ≤ lastPulse p writes ∧ lastPulse p writes ≤ 2250 := by
  unfold lastPulse
  induction writes using List.reverseRecOn with
  | nil =>
    rw [List.foldl_nil]
    decide
  | append_singleton writes w ih =>
    rw [List.foldl_concat]
    split
    · have := limited_bounds w.2
      omega
    · exact ih

/-- **Every servo has its pulse.** Whatever was written before a frame, in it each pin of the
set-up goes up at once and down after the width last asked for that number below 64, 1500
microseconds where none was; no other pin is written, no wait is negative, and the frame is
over before its 8000 microseconds. -/
theorem servo_pulses (p : Nat → Int) (writes : List (Int × Int)) :
    (∀ t pin high, (t, pin, high) ∈ timed 0 (softServoFrame (servosAfter p writes)) ↔
      (∃ servo < maxServos, p servo = pin) ∧ pin ≠ -1 ∧ t = if high then 0 else lastPulse pin writes) ∧
    (∀ d, .delayMicroseconds d ∈ softServoFrame (servosAfter p writes) → 0 ≤ d ∧ d ≤ 2250) ∧
    duration (softServoFrame (servosAfter p writes)) ≤ 2250 := by
  obtain ⟨hpins, hwidths⟩ := servosAfter_spec p writes
  have hframe : softServoFrame (servosAfter p writes) = ons (sorted (servosAfter p writes)) maxServos ++
      offs (sorted (servosAfter p writes)) maxServos := frame_eq _ maxServos
  have hsorted : Sorted Prod.fst maxServos (sorted (servosAfter p writes)) :=
    sorted_gapSort Prod.fst maxServos (by decide) _
  have hperm := rearranged_gapSort (α := Int × Int) Prod.fst maxServos (maxServos / 2) fun servo =>
    ((servosAfter p writes).pulseWidth servo, (servosAfter p writes).pinMap servo)
  have horigin : ∀ i < maxServos, ∃ servo < maxServos,
      sorted (servosAfter p writes) i = (lastPulse (p servo) writes, p servo) := by
    intro i hi
    obtain ⟨servo, hservo, hentry⟩ := hperm.origin hi
    exact ⟨servo, hservo, hentry.trans (by rw [hwidths servo hservo, hpins])⟩
  have hfound : ∀ servo < maxServos, ∃ i < maxServos,
      sorted (servosAfter p writes) i = (lastPulse (p servo) writes, p servo) := by
    intro servo hservo
    obtain ⟨i, hi, hentry⟩ := hperm.found hservo
    exact ⟨i, hi, hentry.trans (by rw [hwidths servo hservo, hpins])⟩
  have hwidth : ∀ i < maxServos, (sorted (servosAfter p writes) i).1 =
      lastPulse (sorted (servosAfter p writes) i).2 writes := by
    intro i hi
    obtain ⟨servo, -, hentry⟩ := horigin i hi
    rw [hentry]
  have hbounds : ∀ i < maxServos, 0 ≤ (sorted (servosAfter p writes) i).1 ∧
      (sorted (servosAfter p writes) i).1 ≤ 2250 := by
    intro i hi
    rw [hwidth i hi]
    have := lastPulse_bounds (sorted (servosAfter p writes) i).2 writes
    omega
  have hservos : ∀ pin, (∃ servo < maxServos, p servo = pin) ↔
      ∃ i < maxServos, (sorted (servosAfter p writes) i).2 = pin := by
    intro pin
    constructor
    · rintro ⟨servo, hservo, rfl⟩
      obtain ⟨i, hi, hentry⟩ := hfound servo hservo
      exact ⟨i, hi, by rw [hentry]⟩
    · rintro ⟨i, hi, rfl⟩
      obtain ⟨servo, hservo, hentry⟩ := horigin i hi
      exact ⟨servo, hservo, by rw [hentry]⟩
  rw [hframe]
  refine ⟨fun t pin high => ?_, fun d hd => ?_, ?_⟩
  · rw [timed_append, duration_ons, List.mem_append, Int.add_zero, mem_timed_ons, mem_timed_offs, hservos]
    constructor
    · rintro (⟨i, hi, rfl, hpin, rfl, rfl⟩ | ⟨i, hi, rfl, hpin, rfl, rfl⟩)
      · exact ⟨⟨i, hi, rfl⟩, hpin, rfl⟩
      · exact ⟨⟨i, hi, rfl⟩, hpin, hwidth i hi⟩
    · rintro ⟨⟨i, hi, rfl⟩, hpin, rfl⟩
      cases high with
      | true => exact .inl ⟨i, hi, rfl, hpin, rfl, rfl⟩
      | false => exact .inr ⟨i, hi, rfl, hpin, rfl, (hwidth i hi).symm⟩
  · obtain ⟨i, hi, -, rfl⟩ := mem_delays.mp hd
    have hlast := lastOf_le hsorted (fun i hi => (hbounds i hi).1) hi
    have := hbounds i hi
    omega
  · rw [duration_append, duration_ons, duration_offs, Int.zero_add]
    exact (lastOf_bounds (Int.le_refl 0) (by decide) hbounds).2

/-- Two servos, one of them asked for too much. -/
def twoServos : Servos := servosAfter (fun servo => if servo < 2 then servo + 3 else -1) [(4, 2000)]

theorem servo_pulses_two : (0, 3, true) ∈ timed 0 (softServoFrame twoServos) ∧
    (1500, 3, false) ∈ timed 0 (softServoFrame twoServos) ∧
    (2250, 4, false) ∈ timed 0 (softServoFrame twoServos) ∧
    (1500, 4, false) ∉ timed 0 (softServoFrame twoServos) := by
  have h := (servo_pulses (fun servo => if servo < 2 then servo + 3 else -1) [(4, 2000)]).1
  refine ⟨(h _ _ _).mpr ⟨⟨0, by decide⟩, by decide, by decide⟩, (h _ _ _).mpr ⟨⟨0, by decide⟩, by decide, by decide⟩,
    (h _ _ _).mpr ⟨⟨1, by decide⟩, by decide, by decide⟩, fun hmem => ?_⟩
  exact absurd ((h _ _ _).mp hmem).2.2 (by decide)

end SmartPrince.Wiring.SoftServoSoundness

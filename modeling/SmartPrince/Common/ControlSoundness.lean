import Mathlib.Data.Nat.Bitwise
import SmartPrince.Common.VideoSpec

/-! # The picture controls a device has

`v4l2_scan_controls` packs the controls that answer into an array and sets a
flag for each; `v4l2_set_control` counts flags to find a control's entry again. -/
namespace SmartPrince.Common.ControlSoundness
open SmartPrince.Lib.Program
open SmartPrince.Common.V4l2 SmartPrince.Common.Video SmartPrince.Common.VideoSpec

variable {δ : Type}

/-- The device answers for each control the same way each time: that it has
none, or with its type and a range. -/
structure Answers (D : Driver δ) (q : Cid → Option QueryCtrl) : Prop where
  supported : ∀ id (ctrl : QueryCtrl), q id = some ctrl →
    ∀ d, (D.ioctl (.queryctrl id) d).1 = .ok ctrl
  unsupported : ∀ id, q id = none → ∀ d, ∃ e, (D.ioctl (.queryctrl id) d).1 = .error e
  range : ∀ id ctrl, q id = some ctrl →
    ctrl.minimum ≤ ctrl.maximum ∧ ctrl.maximum - ctrl.minimum ≤ 2 ^ 23

/-- The device's state before the scan, as `calloc` leaves it. -/
structure Unscanned (c : Cam δ) : Prop where
  flags : c.s.ctrlFlags = 0
  controls : c.s.controls = none

/-! ## The flags and the packed array -/

/-- The flags from `i` on say which of `qs` the device has. -/
def Flagged (q : Cid → Option QueryCtrl) (qs : List Cid) (i flags : Nat) : Prop :=
  ∀ k id, qs[k]? = some id → flags.testBit (i + k) = (q id).isSome

theorem Flagged.head {q : Cid → Option QueryCtrl} {id : Cid} {qs : List Cid} {i flags : Nat}
    (h : Flagged q (id :: qs) i flags) : flags.testBit i = (q id).isSome := h 0 id rfl

theorem Flagged.tail {q : Cid → Option QueryCtrl} {id : Cid} {qs : List Cid} {i flags : Nat}
    (h : Flagged q (id :: qs) i flags) : Flagged q qs (i + 1) flags := by
  intro k id' hk
  rw [Nat.add_assoc, Nat.add_comm 1 k]
  exact h (k + 1) id' hk

theorem Flagged.cons {q : Cid → Option QueryCtrl} {id : Cid} {qs : List Cid} {i flags : Nat}
    (hi : flags.testBit i = (q id).isSome) (h : Flagged q qs (i + 1) flags) :
    Flagged q (id :: qs) i flags := by
  intro k id' hk
  cases k with
  | zero =>
    obtain rfl : id = id' := Option.some.inj hk
    exact hi
  | succ k =>
    have hbit := h k id' hk
    rwa [Nat.add_assoc, Nat.add_comm 1 k] at hbit

theorem testBit_flag (flags i j : Nat) :
    (flags ||| 1 <<< i).testBit j = (flags.testBit j || decide (i = j)) := by
  rw [Nat.testBit_or, Nat.one_shiftLeft, Nat.testBit_two_pow]

section Scan
variable {D : Driver δ} {q : Cid → Option QueryCtrl} (h : Answers D q)
include h

omit h in
/-- A control that the device has gets its flag, and nothing else changes. -/
theorem queryControls_supported {id : Cid} {ctrl : QueryCtrl} {c : Cam δ}
    (ha : answer D (.queryctrl id) c.drv = .ok ctrl) (qs : List Cid) (i count : Nat) :
    ∃ c₁ : Cam δ, queryControls D (id :: qs) i count c = queryControls D qs (i + 1) (count + 1) c₁ ∧
      (∀ j, c₁.s.ctrlFlags.testBit j = (c.s.ctrlFlags.testBit j || decide (i = j))) ∧
      c₁.s.controls = c.s.controls := by
  refine ⟨{ after D (.queryctrl id) c with
    s := { (after D (.queryctrl id) c).s with
      ctrlFlags := (after D (.queryctrl id) c).s.ctrlFlags ||| 1 <<< i } }, ?_, ?_, rfl⟩
  · rw [queryControls, xioctl_bind, ha]
    rfl
  · intro j
    rw [← testBit_flag]
    rfl

/-- The first loop flags the controls from `i` on, counts them and leaves the flags below. -/
theorem queryControls_flagged (qs : List Cid) (i count : Nat) (c : Cam δ)
    (h0 : ∀ j, i ≤ j → c.s.ctrlFlags.testBit j = false) :
    (queryControls D qs i count c).1 = count + (qs.filterMap q).length ∧
      Flagged q qs i (queryControls D qs i count c).2.s.ctrlFlags ∧
      (∀ j < i, (queryControls D qs i count c).2.s.ctrlFlags.testBit j =
        c.s.ctrlFlags.testBit j) ∧
      (queryControls D qs i count c).2.s.controls = c.s.controls := by
  induction qs generalizing i count c with
  | nil => exact ⟨rfl, (fun k id hk => nomatch hk), fun _ _ => rfl, rfl⟩
  | cons id qs ih =>
    cases hq : q id with
    | none =>
      obtain ⟨e, he⟩ := h.unsupported id hq c.drv
      have ha : answer D (.queryctrl id) c.drv = .error e := he
      rw [queryControls, xioctl_bind, ha]
      obtain ⟨hcount, hflags, hbelow, hcontrols⟩ := ih (i + 1) count
        (after D (.queryctrl id) c) (fun j hj => h0 j (by omega))
      have hi := (hbelow i (Nat.lt_succ_self i)).trans (h0 i (Nat.le_refl i))
      refine ⟨?_, hflags.cons (by rw [hi, hq]; rfl), fun j hj => hbelow j (by omega), hcontrols⟩
      rw [List.filterMap_cons_none hq]
      exact hcount
    | some ctrl =>
      obtain ⟨c₁, heq, hbit, hsame⟩ :=
        queryControls_supported (h.supported id ctrl hq c.drv) qs i count
      have h1 : ∀ j, i + 1 ≤ j → c₁.s.ctrlFlags.testBit j = false := by
        intro j hj
        rw [hbit, h0 j (by omega), decide_eq_false (by omega)]
        rfl
      obtain ⟨hcount, hflags, hbelow, hcontrols⟩ := ih (i + 1) (count + 1) c₁ h1
      rw [heq]
      refine ⟨?_, hflags.cons ?_, fun j hj => ?_, hcontrols.trans hsame⟩
      · rw [hcount, List.filterMap_cons_some hq, List.length_cons]
        omega
      · rw [hbelow i (Nat.lt_succ_self i), hbit, decide_eq_true rfl, Bool.or_true, hq]
        rfl
      · rw [hbelow j (by omega), hbit, decide_eq_false (by omega), Bool.or_false]

/-- The second loop packs the entries of the controls that were flagged. -/
theorem fillControls_packed (qs : List Cid) (i : Nat) (filled : List QueryCtrl) (c : Cam δ)
    (hf : Flagged q qs i c.s.ctrlFlags) :
    (fillControls D qs i filled c).1 = filled ++ qs.filterMap q ∧
      (fillControls D qs i filled c).2.s = c.s := by
  induction qs generalizing i filled c with
  | nil => exact ⟨(List.append_nil filled).symm, rfl⟩
  | cons id qs ih =>
    rw [fillControls, get_bind]
    cases hq : q id with
    | none =>
      have hbit : c.s.ctrlFlags.testBit i = false := by rw [hf.head, hq]; rfl
      rw [hbit, List.filterMap_cons_none hq]
      exact ih (i + 1) filled c hf.tail
    | some ctrl =>
      have hbit : c.s.ctrlFlags.testBit i = true := by rw [hf.head, hq]; rfl
      have ha : answer D (.queryctrl id) c.drv = .ok ctrl := h.supported id ctrl hq c.drv
      rw [if_pos hbit, xioctl_bind, ha]
      dsimp only
      rw [xioctl_bind]
      obtain ⟨hfilled, hs⟩ := ih (i + 1) (filled ++ [ctrl])
        (after D (.gCtrl id) (after D (.queryctrl id) c)) hf.tail
      refine ⟨?_, hs⟩
      rw [hfilled, List.filterMap_cons_some hq, List.append_assoc]
      rfl

/-- After the scan the array is that of the controls the device has, in the order
of `queried_ctrls`, and the flags are theirs. -/
theorem v4l2ScanControls_packed {c : Cam δ} (hc : Unscanned c) :
    Flagged q queriedCtrls 0 (v4l2ScanControls D c).2.s.ctrlFlags ∧
      (v4l2ScanControls D c).2.s.controls =
        if queriedCtrls.filterMap q = [] then none else some (queriedCtrls.filterMap q) := by
  obtain ⟨hcount, hflags, -, hcontrols⟩ := queryControls_flagged h queriedCtrls 0 0 c (by
    intro j _
    rw [hc.flags, Nat.zero_testBit])
  unfold v4l2ScanControls
  rw [bind_apply]
  generalize queryControls D queriedCtrls 0 0 c = r at hcount hflags hcontrols ⊢
  obtain ⟨count, c₁⟩ := r
  rw [Nat.zero_add] at hcount
  by_cases hempty : queriedCtrls.filterMap q = []
  · rw [hempty] at hcount
    obtain rfl : count = 0 := hcount
    rw [if_neg (not_not.mpr rfl), if_pos hempty]
    exact ⟨hflags, hcontrols.trans hc.controls⟩
  · have hpos : count ≠ 0 := by
      intro h0
      exact hempty (List.eq_nil_of_length_eq_zero (hcount.symm.trans h0))
    rw [if_pos hpos, if_neg hempty, bind_apply, modify_bind]
    obtain ⟨hfilled, hs⟩ := fillControls_packed h queriedCtrls 0 [] c₁ hflags
    rw [List.nil_append] at hfilled
    refine ⟨?_, ?_⟩
    · change Flagged q queriedCtrls 0 (fillControls D queriedCtrls 0 [] c₁).2.s.ctrlFlags
      rw [hs]
      exact hflags
    · change some _ = some _
      rw [hfilled, ← hcount, Nat.sub_self, List.replicate_zero, List.append_nil]

end Scan

section Find
variable {q : Cid → Option QueryCtrl} {cid : Cid} {flags : Nat}

/-- The number of flags below a control's is its place among the packed entries. -/
theorem findControl_entry {ctrl : QueryCtrl} (hq : q cid = some ctrl) (qs : List Cid) (i : Nat)
    (pre : List QueryCtrl) (hf : Flagged q qs i flags) (hmem : cid ∈ qs) :
    ∃ n, findControl flags cid qs i pre.length = some n ∧
      (pre ++ qs.filterMap q)[n]? = some ctrl := by
  induction qs generalizing i pre with
  | nil => cases hmem
  | cons id qs ih =>
    unfold findControl
    by_cases hid : cid = id
    · subst hid
      have hbit : flags.testBit i = true := by rw [hf.head, hq]; rfl
      refine ⟨pre.length, by rw [if_pos hbit, if_pos rfl], ?_⟩
      rw [List.filterMap_cons_some hq]
      simp
    · have hrest : cid ∈ qs := List.mem_of_ne_of_mem hid hmem
      cases hq' : q id with
      | none =>
        have hbit : ¬ flags.testBit i = true := by rw [hf.head, hq']; decide
        rw [if_neg hbit, List.filterMap_cons_none hq']
        exact ih (i + 1) pre hf.tail hrest
      | some entry =>
        have hbit : flags.testBit i = true := by rw [hf.head, hq']; rfl
        rw [if_pos hbit, if_neg hid, List.filterMap_cons_some hq']
        obtain ⟨n, hn, hentry⟩ := ih (i + 1) (pre ++ [entry]) hf.tail hrest
        refine ⟨n, ?_, ?_⟩
        · rw [List.length_append] at hn
          exact hn
        · rw [List.append_assoc] at hentry
          exact hentry

theorem findControl_missing (hq : q cid = none) (qs : List Cid) (i count : Nat)
    (hf : Flagged q qs i flags) : findControl flags cid qs i count = none := by
  induction qs generalizing i count with
  | nil => rfl
  | cons id qs ih =>
    unfold findControl
    split
    · rename_i hbit
      have hid : cid ≠ id := by
        rintro rfl
        rw [hf.head, hq] at hbit
        cases hbit
      rw [if_neg hid]
      exact ih (i + 1) (count + 1) hf.tail
    · exact ih (i + 1) count hf.tail

theorem findControl_unqueried (qs : List Cid) (i count : Nat) (hn : cid ∉ qs) :
    findControl flags cid qs i count = none := by
  induction qs generalizing i count with
  | nil => rfl
  | cons id qs ih =>
    rw [List.mem_cons, not_or] at hn
    unfold findControl
    rw [if_neg hn.1]
    split
    · exact ih (i + 1) (count + 1) hn.2
    · exact ih (i + 1) count hn.2

end Find

/-! ## Setting a control -/

/-- What a value becomes for a control: scaled to its range, or a truth value. -/
def commanded (ctrl : QueryCtrl) (value : Int) : Int :=
  if ctrl.type = .integer then
    (value * (ctrl.maximum - ctrl.minimum)).tdiv 256 + ctrl.minimum
  else if value ≠ 0 then 1
  else 0

/-- The requests between two states, newest first. -/
def requests (c c' : Cam δ) : List Request := (asked c c').map (·.request)

/-- With the controls as the camera has them, a control the device does not
have, or of another type, is refused without a request; any other is set to a
value from its own range, for an integer one within it, at its lower end for 0
and monotone. -/
structure SetsControls (D : Driver δ) (q : Cid → Option QueryCtrl) (c : Cam δ) : Prop where
  refuses : ∀ cid value,
    (cid ∉ queriedCtrls ∨ q cid = none ∨ ∃ ctrl, q cid = some ctrl ∧ ctrl.type = .other) →
      (v4l2SetControl D cid value c).1 = -1 ∧ requests c (v4l2SetControl D cid value c).2 = []
  sends : ∀ cid value ctrl, cid ∈ queriedCtrls → q cid = some ctrl → ctrl.type ≠ .other →
    (v4l2SetControl D cid value c).1 = 0 ∧
      requests c (v4l2SetControl D cid value c).2 = [.sCtrl cid (commanded ctrl value)]
  within : ∀ cid ctrl, q cid = some ctrl → ctrl.type = .integer →
    commanded ctrl 0 = ctrl.minimum ∧
      ∀ v w, 0 ≤ v → v ≤ w → w ≤ 255 →
        ctrl.minimum ≤ commanded ctrl v ∧ commanded ctrl v ≤ commanded ctrl w ∧
          commanded ctrl w ≤ ctrl.maximum ∧ w * (ctrl.maximum - ctrl.minimum) < 2 ^ 31

theorem requests_self (c : Cam δ) : requests c c = [] := by
  rw [requests, asked_of (List.nil_append c.trace).symm]
  rfl

theorem requests_after (D : Driver δ) (r : Request) (c : Cam δ) :
    requests c (after D r c) = [r] := by
  have htrace : (after D r c).trace = [⟨r, c.drv, answer D r c.drv⟩] ++ c.trace := rfl
  rw [requests, asked_of htrace]
  rfl

/-- The scaled value lies in the range, and no step of its computation leaves 32 bits. -/
theorem commanded_within {ctrl : QueryCtrl} (hi : ctrl.type = .integer)
    (hr : ctrl.minimum ≤ ctrl.maximum ∧ ctrl.maximum - ctrl.minimum ≤ 2 ^ 23) {v w : Int}
    (h0 : 0 ≤ v) (hvw : v ≤ w) (hw : w ≤ 255) :
    ctrl.minimum ≤ commanded ctrl v ∧ commanded ctrl v ≤ commanded ctrl w ∧
      commanded ctrl w ≤ ctrl.maximum ∧ w * (ctrl.maximum - ctrl.minimum) < 2 ^ 31 := by
  obtain ⟨hle, hspan⟩ := hr
  obtain ⟨span, hs⟩ : ∃ span, span = ctrl.maximum - ctrl.minimum := ⟨_, rfl⟩
  have hspan0 : 0 ≤ span := by omega
  have hv : 0 ≤ v * span := Int.mul_nonneg h0 hspan0
  have hmono : v * span ≤ w * span := Int.mul_le_mul_of_nonneg_right hvw hspan0
  have htop : w * span ≤ 255 * span := Int.mul_le_mul_of_nonneg_right hw hspan0
  unfold commanded
  rw [if_pos hi, if_pos hi, ← hs, Int.tdiv_eq_ediv_of_nonneg hv,
    Int.tdiv_eq_ediv_of_nonneg (hv.trans hmono)]
  refine ⟨by omega, by omega, by omega, by omega⟩

section Set
variable {D : Driver δ} {c : Cam δ} {cid : Cid} {value : Int}

theorem setControl_missing (hn : findControl c.s.ctrlFlags cid queriedCtrls 0 0 = none) :
    v4l2SetControl D cid value c = (-1, c) := by
  unfold v4l2SetControl
  rw [get_bind]
  dsimp only
  cases c.s.controls with
  | none => rfl
  | some controls =>
    dsimp only
    rw [hn]
    rfl

theorem setControl_found {controls : List QueryCtrl} {n : Nat} {ctrl : QueryCtrl}
    (hc : c.s.controls = some controls)
    (hn : findControl c.s.ctrlFlags cid queriedCtrls 0 0 = some n)
    (he : controls[n]? = some ctrl) :
    v4l2SetControl D cid value c =
      if ctrl.type = .other then (-1, c)
      else (0, after D (.sCtrl cid (commanded ctrl value)) c) := by
  have hentry : controls.getD n ⟨.other, 0, 0⟩ = ctrl := by
    rw [List.getD_eq_getElem?_getD, he, Option.getD_some]
  unfold v4l2SetControl commanded
  rw [get_bind]
  dsimp only
  rw [hc]
  dsimp only
  rw [hn]
  dsimp only
  rw [hentry]
  cases ctrl.type <;> rfl

end Set

section Packed
variable {D : Driver δ} {q : Cid → Option QueryCtrl} {c : Cam δ}
  (hf : Flagged q queriedCtrls 0 c.s.ctrlFlags)
  (hp : c.s.controls =
    if queriedCtrls.filterMap q = [] then none else some (queriedCtrls.filterMap q))
include hf hp

theorem setControl_packed {cid : Cid} {ctrl : QueryCtrl} (hmem : cid ∈ queriedCtrls)
    (hq : q cid = some ctrl) (value : Int) : v4l2SetControl D cid value c =
      if ctrl.type = .other then (-1, c)
      else (0, after D (.sCtrl cid (commanded ctrl value)) c) := by
  obtain ⟨n, hn, hentry⟩ := findControl_entry hq queriedCtrls 0 [] hf hmem
  have hctrl : ctrl ∈ queriedCtrls.filterMap q := List.mem_filterMap.mpr ⟨cid, hmem, hq⟩
  rw [if_neg (List.ne_nil_of_mem hctrl)] at hp
  exact setControl_found hp hn hentry

theorem setControl_refused {cid : Cid}
    (hno : cid ∉ queriedCtrls ∨ q cid = none ∨ ∃ ctrl, q cid = some ctrl ∧ ctrl.type = .other)
    (value : Int) : v4l2SetControl D cid value c = (-1, c) := by
  by_cases hmem : cid ∈ queriedCtrls
  · cases hq : q cid with
    | none => exact setControl_missing (findControl_missing hq queriedCtrls 0 0 hf)
    | some ctrl =>
      obtain hn | hn | ⟨entry, he, htype⟩ := hno
      · exact absurd hmem hn
      · rw [hq] at hn
        cases hn
      · rw [setControl_packed hf hp hmem he, if_pos htype]
  · exact setControl_missing (findControl_unqueried queriedCtrls 0 0 hmem)

theorem setsControls_of_packed (h : Answers D q) : SetsControls D q c := by
  constructor
  · intro cid value hno
    rw [setControl_refused hf hp hno]
    exact ⟨rfl, requests_self c⟩
  · intro cid value ctrl hmem hq htype
    rw [setControl_packed hf hp hmem hq, if_neg htype]
    exact ⟨rfl, requests_after D _ c⟩
  · intro cid ctrl hq hi
    refine ⟨?_, fun v w h0 hvw hw => commanded_within hi (h.range cid ctrl hq) h0 hvw hw⟩
    unfold commanded
    rw [if_pos hi, Int.zero_mul, Int.zero_tdiv, Int.zero_add]

end Packed

/-- A device with brightness from -64 to 64, a switch for gain control and a
menu of exposures. -/
def fewControls : Cid → Option QueryCtrl
  | .brightness => some ⟨.integer, -64, 64⟩
  | .autogain => some ⟨.boolean, 0, 1⟩
  | .exposure => some ⟨.other, 0, 3⟩
  | _ => none

def queried (q : Cid → Option QueryCtrl) (id : Cid) : Except Errno QueryCtrl :=
  match q id with
  | some ctrl => .ok ctrl
  | none => .error 22

/-- A driver with the controls of `q` and nothing else. -/
def controlDriver (q : Cid → Option QueryCtrl) : Driver Unit where
  ioctl r d := match r with
    | .queryctrl id => (queried q id, d)
    | .gCtrl _ => (.ok (0 : Int), d)
    | .sCtrl _ _ => (.ok (), d)
    | _ => (.error 22, d)
  gettimeofday d := (⟨0, 0⟩, d)
  standards := 0
  formats := 0
  standards_end _ _ _ := ⟨22, rfl⟩
  formats_end _ _ _ := ⟨22, rfl⟩

theorem controlDriver_answers {q : Cid → Option QueryCtrl}
    (hr : ∀ id ctrl, q id = some ctrl →
      ctrl.minimum ≤ ctrl.maximum ∧ ctrl.maximum - ctrl.minimum ≤ 2 ^ 23) :
    Answers (controlDriver q) q where
  supported id ctrl hq _ := show queried q id = .ok ctrl by rw [queried, hq]
  unsupported id hq _ := ⟨22, show queried q id = .error 22 by rw [queried, hq]⟩
  range := hr

theorem fewControls_range (id : Cid) (ctrl : QueryCtrl) (h : fewControls id = some ctrl) :
    ctrl.minimum ≤ ctrl.maximum ∧ ctrl.maximum - ctrl.minimum ≤ 2 ^ 23 := by
  cases id <;> cases h <;> decide

end SmartPrince.Common.ControlSoundness

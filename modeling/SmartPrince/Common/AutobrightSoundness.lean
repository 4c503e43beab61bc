import Mathlib.Algebra.BigOperators.Group.Finset.Basic
import SmartPrince.Lib.Run
import SmartPrince.Common.VideoSpec

/-! # Automatic brightness

Between two calls of `vid_do_autobright` a frame is captured. Each call takes
one damped step towards the configured target, or none; here the steps of a
whole sequence of frames are followed. The samples are added up in an `int`,
which the largest frames overflow. -/
namespace SmartPrince.Common.AutobrightSoundness
open SmartPrince.Lib.Loop SmartPrince.Lib.Memory SmartPrince.Lib.Run SmartPrince.Lib.CInt
open SmartPrince.Common.CameraState SmartPrince.Common.V4l2
open SmartPrince.Common.Video SmartPrince.Common.VideoSpec

variable {δ : Type}

/-! ## The average and the window -/

/-- The bytes in memory when a call is made, and the size of the frame among them. -/
structure Shot where
  mem : Mem Buf
  motionsize : Nat
  pos : 1 ≤ motionsize

/-- How many bytes of a frame are looked at: every 101st. -/
def Shot.samples (f : Shot) : Nat := (f.motionsize + 100) / 101

def Shot.sum (f : Shot) : Nat :=
  ∑ k ∈ Finset.range f.samples, (f.mem.byte (imageVirgin + 101 * k)).toNat

def Shot.average (f : Shot) : Int := (f.sum / f.samples : Nat)

/-- The index, which passes the end by up to 100, and the sum are `int`s. -/
structure Shot.Counted (f : Shot) : Prop where
  index : f.motionsize ≤ 2147483614
  sum : f.sum < 2 ^ 31

/-- What the code takes for the average. -/
def Shot.taken (f : Shot) : Int := (int f.sum).tdiv f.samples

theorem Shot.Counted.taken {f : Shot} (h : f.Counted) : f.taken = f.average := by
  rw [Shot.taken, int_natCast h.sum, Shot.average, Int.ofNat_tdiv]

/-- The configured target; 0 stands for 128. -/
def target (conf : Config) : Int := if conf.brightness ≠ 0 then conf.brightness else 128

def windowHigh (conf : Config) : Int := min (target conf + autobrightHysteresis) 255

def windowLow (conf : Config) : Int := max (target conf - autobrightHysteresis) 1

/-- The camera as a call finds it. -/
def shown (f : Shot) (c : Cam δ) : Cam δ :=
  { c with
    tsk := { c.tsk with imgs := { c.tsk.imgs with motionsize := f.motionsize } }
    mem := f.mem }

/-- The camera after a call. -/
def adjust (c : Cam δ) (f : Shot) : Cam δ := (vidDoAutobright (shown f c)).2

/-- A call keeps the brightness in range, moves it against the deviation of
the average where it says so, and leaves it where there is none. -/
structure Steered (c : Cam δ) (f : Shot) : Prop where
  range : 0 ≤ (adjust c f).viddev.brightness ∧ (adjust c f).viddev.brightness ≤ 255
  down : (vidDoAutobright (shown f c)).1 = true → windowHigh c.tsk.conf < f.average →
    (adjust c f).viddev.brightness < c.viddev.brightness
  up : (vidDoAutobright (shown f c)).1 = true → f.average < windowLow c.tsk.conf →
    c.viddev.brightness < (adjust c f).viddev.brightness
  inside : windowLow c.tsk.conf ≤ f.average → f.average ≤ windowHigh c.tsk.conf →
    (vidDoAutobright (shown f c)).1 = false ∧
      (adjust c f).viddev.brightness = c.viddev.brightness

/-! ## One call -/

/-- The result of a call and the brightness it leaves. -/
inductive Turned (conf : Config) (avg before : Int) : Bool → Int → Prop
  | kept : Turned conf avg before false before
  | down {step : Int} (above : windowHigh conf < avg) (pos : 0 < step) (guard : step + 1 < before) :
      Turned conf avg before true (before - step)
  | up {step : Int} (below : avg < windowLow conf) (pos : 0 < step) (guard : before < 255 - step) :
      Turned conf avg before true (before + step)

/-- Of the sum, only what does not fit is lost. -/
theorem sampleSum_int (motionsize : Nat) (mem : Mem Buf) :
    (sampleSum motionsize mem).1 = int (∑ k ∈ Finset.range ((motionsize + 100) / 101),
      (mem.byte (imageVirgin + 101 * k)).toNat : Nat) := by
  unfold sampleSum
  refine (loop_inv (fun n (s : Int × Mem Buf) => s.2.byte = mem.byte ∧
    s.1 = int (∑ k ∈ Finset.range n, (mem.byte (imageVirgin + 101 * k)).toNat : Nat))
    ⟨rfl, (int_natCast (by decide)).symm⟩ ?_).2
  rintro k ⟨avg, m⟩ - ⟨hbyte, havg⟩
  refine ⟨hbyte, ?_⟩
  change avg = _ at havg
  change int (avg + (m.byte (imageVirgin + 101 * k)).toNat) = _
  rw [Finset.sum_range_succ, hbyte, havg, int_int_add, Nat.cast_add]

section OneCall
variable {c : Cam δ} {f : Shot}

theorem sampleSum_taken :
    (sampleSum f.motionsize f.mem).1.tdiv ((f.motionsize + 100) / 101 : Nat) = f.taken := by
  rw [sampleSum_int]
  rfl

theorem target_range (h : 0 ≤ c.tsk.conf.brightness ∧ c.tsk.conf.brightness ≤ 255) :
    1 ≤ target c.tsk.conf ∧ target c.tsk.conf ≤ 255 := by
  unfold target
  split <;> omega

/-- A step that a guard lets through is the damped one, which is at least 1. -/
theorem damped_pos {dev room : Int} (hdev : 0 ≤ dev)
    (h : min (dev.tdiv autobrightDamper + 1) room < room) :
    0 < min (dev.tdiv autobrightDamper + 1) room := by
  have hdamped : 0 ≤ dev.tdiv autobrightDamper := Int.tdiv_nonneg hdev (by decide)
  omega

theorem turned (ht : 1 ≤ target c.tsk.conf ∧ target c.tsk.conf ≤ 255) :
    Turned c.tsk.conf f.taken c.viddev.brightness (vidDoAutobright (shown f c)).1
      (adjust c f).viddev.brightness := by
  have htarget : (if c.tsk.conf.brightness ≠ 0 then c.tsk.conf.brightness else 128) =
      target c.tsk.conf := rfl
  have hhigh : min (target c.tsk.conf + autobrightHysteresis) 255 = windowHigh c.tsk.conf := rfl
  have hlow : max (target c.tsk.conf - autobrightHysteresis) 1 = windowLow c.tsk.conf := rfl
  unfold adjust vidDoAutobright shown
  simp only [Int.toNat_natCast, sampleSum_taken, htarget, hhigh, hlow]
  split
  · rename_i habove
    have hdev : 0 ≤ f.taken - target c.tsk.conf := by
      unfold windowHigh autobrightHysteresis at habove
      omega
    split
    · rename_i hguard
      unfold autobrightMin at hguard ⊢
      refine .down habove (damped_pos hdev ?_) ?_
      · omega
      · omega
    · exact .kept
  · split
    · rename_i hbelow
      have hdev : 0 ≤ target c.tsk.conf - f.taken := by
        unfold windowLow autobrightHysteresis at hbelow
        omega
      split
      · rename_i hguard
        unfold autobrightMax at hguard ⊢
        refine .up hbelow (damped_pos hdev ?_) hguard
        omega
      · exact .kept
    · exact .kept

/-- Below the window there is a step up where the device has room for it. -/
theorem turned_up {step : Int} (hbelow : f.taken < windowLow c.tsk.conf)
    (hwindow : windowLow c.tsk.conf ≤ windowHigh c.tsk.conf)
    (hstep : min ((target c.tsk.conf - f.taken).tdiv autobrightDamper + 1)
      (autobrightMax - c.viddev.brightness) = step)
    (hroom : c.viddev.brightness < autobrightMax - step) :
    (vidDoAutobright (shown f c)).1 = true ∧
      (adjust c f).viddev.brightness = c.viddev.brightness + step := by
  have htarget : (if c.tsk.conf.brightness ≠ 0 then c.tsk.conf.brightness else 128) =
      target c.tsk.conf := rfl
  have hhigh : min (target c.tsk.conf + autobrightHysteresis) 255 = windowHigh c.tsk.conf := rfl
  have hlow : max (target c.tsk.conf - autobrightHysteresis) 1 = windowLow c.tsk.conf := rfl
  unfold adjust vidDoAutobright shown
  simp only [Int.toNat_natCast, sampleSum_taken, htarget, hhigh, hlow, hstep]
  rw [if_neg (by omega), if_pos hbelow, if_pos hroom]
  exact ⟨rfl, rfl⟩

theorem windows_apart (ht : 1 ≤ target c.tsk.conf ∧ target c.tsk.conf ≤ 255) :
    windowLow c.tsk.conf ≤ windowHigh c.tsk.conf := by
  unfold windowLow windowHigh autobrightHysteresis
  omega

/-- Whatever is taken for the average, the brightness stays in range. -/
theorem adjust_range (ht : 1 ≤ target c.tsk.conf ∧ target c.tsk.conf ≤ 255)
    (hb : 0 ≤ c.viddev.brightness ∧ c.viddev.brightness ≤ 255) :
    0 ≤ (adjust c f).viddev.brightness ∧ (adjust c f).viddev.brightness ≤ 255 := by
  have hturn : Turned c.tsk.conf f.taken c.viddev.brightness _ _ := turned (f := f) ht
  generalize (vidDoAutobright (shown f c)).1 = ret at hturn
  generalize (adjust c f).viddev.brightness = after at hturn ⊢
  cases hturn with
  | kept => exact hb
  | down above pos guard => exact ⟨by omega, by omega⟩
  | up below pos guard => exact ⟨by omega, by omega⟩

theorem steered (ht : 1 ≤ target c.tsk.conf ∧ target c.tsk.conf ≤ 255)
    (hb : 0 ≤ c.viddev.brightness ∧ c.viddev.brightness ≤ 255) (hf : f.Counted) : Steered c f := by
  have hwindow := windows_apart ht
  have hrange := adjust_range (f := f) ht hb
  have hturn : Turned c.tsk.conf f.taken c.viddev.brightness _ _ := turned (f := f) ht
  rw [hf.taken] at hturn
  generalize hret : (vidDoAutobright (shown f c)).1 = ret at hturn
  generalize hafter : (adjust c f).viddev.brightness = after at hturn
  cases hturn with
  | kept =>
    refine ⟨hrange, fun h => ?_, fun h => ?_, fun _ _ => ⟨hret, hafter⟩⟩
    · rw [hret] at h; cases h
    · rw [hret] at h; cases h
  | down above pos guard =>
    exact ⟨hrange, fun _ _ => by omega, fun _ _ => by omega, fun _ _ => by omega⟩
  | up below pos guard =>
    exact ⟨hrange, fun _ _ => by omega, fun _ _ => by omega, fun _ _ => by omega⟩

theorem adjust_conf : (adjust c f).tsk.conf = c.tsk.conf := by
  obtain ⟨brightness, hstate⟩ := vidDoAutobright_state (shown f c)
  unfold adjust
  rw [hstate]
  rfl

end OneCall

/-! ## A sequence of frames -/

/-- **The brightness is steered towards the window and stays in range** over
every sequence of frames whose samples add up to an `int`, from every device
brightness in range and for every configured target. -/
theorem autobright_steered (c : Cam δ) (frames : List Shot)
    (ht : 0 ≤ c.tsk.conf.brightness ∧ c.tsk.conf.brightness ≤ 255)
    (hb : 0 ≤ c.viddev.brightness ∧ c.viddev.brightness ≤ 255)
    (hframes : ∀ f ∈ frames, f.Counted) : Always adjust Steered c frames := by
  have hall : Always adjust (fun c f => f.Counted → Steered c f) c frames := by
    refine always_of_invariant (I := fun c => (0 ≤ c.tsk.conf.brightness ∧
      c.tsk.conf.brightness ≤ 255) ∧ 0 ≤ c.viddev.brightness ∧ c.viddev.brightness ≤ 255) ?_
      ⟨ht, hb⟩
    rintro c f ⟨ht, hb⟩
    refine ⟨steered (target_range ht) hb, ?_, adjust_range (target_range ht) hb⟩
    rw [adjust_conf]
    exact ht
  intro pre f post hsplit
  exact hall pre f post hsplit (hframes f (hsplit ▸ by simp))

/-- A camera at brightness 100 whose target is the default, 128. -/
def halfBright : Cam Unit :=
  { Cam.zero () with viddev := { VideoDev.zero with brightness := 100 } }

/-- A frame of one value. -/
def plain (value : UInt8) (motionsize : Nat) (pos : 1 ≤ motionsize) : Shot :=
  ⟨⟨fun _ => value, []⟩, motionsize, pos⟩

theorem plain_sum (value : UInt8) (motionsize : Nat) (pos : 1 ≤ motionsize) :
    (plain value motionsize pos).sum = (motionsize + 100) / 101 * value.toNat :=
  (Finset.sum_const_nat fun _ _ => rfl).trans
    (congrArg (· * value.toNat) (Finset.card_range _))

theorem autobright_dark_then_white :
    Always adjust Steered halfBright [plain 0 202 (by decide), plain 255 202 (by decide)] ∧
      (run adjust halfBright [plain 0 202 (by decide)]).viddev.brightness = 126 ∧
      (run adjust halfBright [plain 0 202 (by decide),
        plain 255 202 (by decide)]).viddev.brightness = 100 := by
  refine ⟨autobright_steered _ _ (by decide) (by decide) ?_, by decide, by decide⟩
  simp only [List.forall_mem_cons]
  exact ⟨⟨by decide, by rw [plain_sum]; decide⟩, ⟨by decide, by rw [plain_sum]; decide⟩, by simp⟩

/-- A white frame as large as those of a camera of 16848 by 16848 in colour. The sum
of its 8431340 samples is negative. -/
def white : Shot := plain 255 (16848 * 16848 * 3) (by decide)

theorem white_sum : white.sum = 2149991700 := plain_sum 255 (16848 * 16848 * 3) (by decide)

theorem white_taken : white.taken = -254 := by
  rw [Shot.taken, white_sum]
  decide

theorem white_average : white.average = 255 := by
  rw [Shot.average, white_sum]
  decide

/-- It makes the picture brighter. -/
theorem white_not_steered : ¬ Always adjust Steered halfBright [white] := by
  intro h
  have hs : Steered halfBright white := h [] _ [] rfl
  have hup := @turned_up _ halfBright white 77 (by rw [white_taken]; decide)
    (by decide) (by rw [white_taken]; decide) (by decide)
  have hdown := hs.down hup.1 (by rw [white_average]; decide)
  rw [hup.2] at hdown
  exact absurd hdown (by decide)

end SmartPrince.Common.AutobrightSoundness

import SmartPrince.Common.BufferQueue
import SmartPrince.Common.CaptureSoundness

/-! # What a failed capture does to the picture

`video_v4l2_next` rotates whatever is in `map`, whether a frame was captured
or not. A picture is left alone exactly where it is its own rotation. -/
namespace SmartPrince.Common.FailedCapture
open SmartPrince.Lib.Program SmartPrince.Lib.Memory SmartPrince.Lib.Plane
open SmartPrince.Common.CameraState SmartPrince.Common.Yuv420p SmartPrince.Common.VideoConv
open SmartPrince.Common.Rotate SmartPrince.Common.RotateSoundness
open SmartPrince.Common.V4l2 SmartPrince.Common.Video SmartPrince.Common.VideoSpec
open SmartPrince.Common.BufferQueue SmartPrince.Common.CaptureSoundness

variable {δ : Type} (D : Driver δ) (decodeJpegRaw : DecodeJpegRaw) (map : Ptr Buf)

/-- The camera after one more attempt. -/
def attempt (c : Cam δ) : Cam δ := (videoV4l2Next D decodeJpegRaw map c).2

/-- No call of `v4l2_next` in the attempt gets a frame. -/
def NoFrame (c : Cam δ) : Prop :=
  ∀ x ∈ asked c (attempt D decodeJpegRaw map c), ∀ b, ¬ Delivers b x

/-- The attempt is steady up to the rotation at its end. -/
theorem attempt_steady (c : Cam δ) : ∃ c₁, Steady D c c₁ ∧
    attempt D decodeJpegRaw map c = (rotateCaptured map c₁).2 ∧
    (attempt D decodeJpegRaw map c).tsk = c.tsk ∧
    (attempt D decodeJpegRaw map c).trace = c₁.trace := by
  have hset : Steady D c
      (v4l2SetInput D decodeJpegRaw map c.tsk.imgs.width c.tsk.imgs.height c).2 :=
    v4l2SetInput_steady _ _ _ _
  have hcalled := v4l2Next_called D decodeJpegRaw map c.tsk.imgs.width c.tsk.imgs.height
    (v4l2SetInput D decodeJpegRaw map c.tsk.imgs.width c.tsk.imgs.height c).2
  have hsteady := steady_frame.trans hset hcalled.steady
  refine ⟨_, hsteady, rfl, ?_, ?_⟩
  · rw [attempt, videoV4l2Next_eq, rotateCaptured_state]
    split <;> exact hsteady.tsk
  · rw [attempt, videoV4l2Next_eq, rotateCaptured_state]
    split <;> rfl

variable {D decodeJpegRaw map}

section Retries
variable (hb : map.base ≠ .tempBuf) {w h : Nat} (hw : w % 2 = 0) (hh : h % 2 = 0) {cnt : Context}
include hb hw hh

/-- One failed attempt turns the picture that is there. -/
theorem attempt_turns {c : Cam δ} (hs : SetUp cnt c.tsk w h) (hn : NoFrame D decodeJpegRaw map c) :
    (getFrame map w h (attempt D decodeJpegRaw map c).mem.byte).Same w h
      (rotated c.tsk.rotateData.degrees w h (getFrame map w h c.mem.byte)) := by
  obtain ⟨c₁, hsteady, heq, -, ht⟩ := attempt_steady D decodeJpegRaw map c
  obtain ⟨new, htrace, -, hbyte⟩ := hsteady.trace
  have hasked : asked c (attempt D decodeJpegRaw map c) = new := asked_of (ht.trans htrace)
  rw [NoFrame, hasked] at hn
  have hturn := rotateCaptured_frame hb hw hh (hsteady.tsk ▸ hs : SetUp cnt c₁.tsk w h)
  rwa [heq, ← hbyte hn, ← hsteady.tsk]

/-- It leaves the picture alone exactly where that is its own rotation. -/
theorem attempt_unchanged_iff {c : Cam δ} (hs : SetUp cnt c.tsk w h)
    (hn : NoFrame D decodeJpegRaw map c) :
    (∀ i, i < w * h * 3 / 2 →
      (attempt D decodeJpegRaw map c).mem.byte (map + i) = c.mem.byte (map + i)) ↔
    (getFrame map w h c.mem.byte).Same w h
      (rotated c.tsk.rotateData.degrees w h (getFrame map w h c.mem.byte)) := by
  obtain ⟨_, _, h6⟩ := frame_size hw hh
  have hturn := attempt_turns hb hw hh hs hn
  rw [show w * h * 3 / 2 = w * h + w * h / 4 + w * h / 4 by omega, ← getFrame_same]
  exact ⟨fun hsame => hsame.symm.trans hturn, fun hown => hturn.trans hown.symm⟩

/-- A frame that is its own rotation by these degrees. -/
def OwnRotation (deg : Int) (w h : Nat) (F : Frame) : Prop := F.Same w h (rotated deg w h F)

omit hb hw hh in
theorem own_nothing {deg : Int} (hd : deg ≤ 0) (F : Frame) : OwnRotation deg w h F := by
  rw [OwnRotation, rotated_nothing hd]
  exact ⟨fun _ _ => rfl, fun _ _ => rfl, fun _ _ => rfl⟩

/-- A failed attempt keeps the context, and a picture that is its own rotation. -/
theorem attempt_own {c : Cam δ} (hs : SetUp cnt c.tsk w h) (hn : NoFrame D decodeJpegRaw map c)
    (hown : OwnRotation c.tsk.rotateData.degrees w h (getFrame map w h c.mem.byte)) :
    (attempt D decodeJpegRaw map c).tsk = c.tsk ∧ OwnRotation c.tsk.rotateData.degrees w h
      (getFrame map w h (attempt D decodeJpegRaw map c).mem.byte) := by
  obtain ⟨_, _, _, htsk, _⟩ := attempt_steady D decodeJpegRaw map c
  have hturn := attempt_turns hb hw hh hs hn
  have hback := hturn.trans (Frame.Same.symm hown)
  exact ⟨htsk, hturn.trans (rotated_congr hw hh hback.symm)⟩

/-- And so does every run of them. -/
theorem attempts_own {c : Cam δ} (hs : SetUp cnt c.tsk w h) {N : Nat}
    (hfail : ∀ n, n < N → NoFrame D decodeJpegRaw map ((attempt D decodeJpegRaw map)^[n] c))
    (hown : OwnRotation c.tsk.rotateData.degrees w h (getFrame map w h c.mem.byte)) :
    ∀ n, n ≤ N → ((attempt D decodeJpegRaw map)^[n] c).tsk = c.tsk ∧
      OwnRotation c.tsk.rotateData.degrees w h
        (getFrame map w h ((attempt D decodeJpegRaw map)^[n] c).mem.byte) := by
  intro n
  induction n with
  | zero => exact fun _ => ⟨rfl, hown⟩
  | succ n ih =>
    intro hn
    obtain ⟨htsk, hown'⟩ := ih (by omega)
    have hstep := attempt_own hb hw hh (show SetUp cnt _ w h by rwa [htsk]) (hfail n (by omega))
      (by rwa [htsk])
    rw [Function.iterate_succ_apply', ← htsk]
    exact ⟨hstep.1, hstep.2⟩

/-- **Failed attempts leave the picture alone exactly where nothing is rotated
or the picture is its own rotation.** -/
theorem failed_captures_iff {c : Cam δ} (hs : SetUp cnt c.tsk w h) {N : Nat} (hN : 0 < N)
    (hfail : ∀ n, n < N → NoFrame D decodeJpegRaw map ((attempt D decodeJpegRaw map)^[n] c)) :
    (∀ n, n < N → ∀ i, i < w * h * 3 / 2 →
      ((attempt D decodeJpegRaw map)^[n + 1] c).mem.byte (map + i) =
        ((attempt D decodeJpegRaw map)^[n] c).mem.byte (map + i)) ↔
    c.tsk.rotateData.degrees ≤ 0 ∨ (getFrame map w h c.mem.byte).Same w h
      (rotated c.tsk.rotateData.degrees w h (getFrame map w h c.mem.byte)) := by
  constructor
  · intro hsame
    exact .inr ((attempt_unchanged_iff hb hw hh hs (hfail 0 hN)).mp (hsame 0 hN))
  · intro hcond n hn
    have hown : OwnRotation c.tsk.rotateData.degrees w h (getFrame map w h c.mem.byte) :=
      hcond.elim (fun hd => own_nothing hd _) id
    obtain ⟨htsk, hown'⟩ := attempts_own hb hw hh hs hfail hown n hn.le
    rw [Function.iterate_succ_apply']
    exact (attempt_unchanged_iff hb hw hh (htsk ▸ hs : SetUp cnt _ w h) (hfail n hn)).mpr
      (htsk ▸ hown')

end Retries

/-! ## A camera without a signal, and a white corner -/

/-- A driver that never delivers a frame leaves every attempt without one. -/
theorem noFrame_of (hD : ∀ d (b : Dequeued), answer D .dqbuf d ≠ .ok b) (c : Cam δ) :
    NoFrame D decodeJpegRaw map c := by
  obtain ⟨c₁, hsteady, -, -, ht⟩ := attempt_steady D decodeJpegRaw map c
  obtain ⟨new, htrace, hrec, -⟩ := hsteady.trace
  intro x hx b hdel
  rw [asked_of (ht.trans htrace)] at hx
  obtain ⟨d, rfl⟩ := hdel
  exact hD d b (hrec _ hx).symm

/-- A frame of 16 by 16 pixels whose first luma byte is white. -/
def corner : Mem Buf := ⟨fun p => if p = imageVirgin then 255 else 0, []⟩

def retrying : Cam Pool := poised (.full mmapBuffers) corner 90 .yuyv 16 16

theorem retrying_setUp : SetUp (picturing 90 16 16) retrying.tsk 16 16 :=
  poised_setUp _ corner 90 .yuyv 16 16

theorem noSignal_noFrame (c : Cam Pool) : NoFrame noSignal noJpeg imageVirgin c :=
  noFrame_of (fun _ _ ha => by cases ha) c

theorem failed_captures_corner :
    (∀ n, n < 5 → ∀ i, i < 16 * 16 * 3 / 2 →
      ((attempt noSignal noJpeg imageVirgin)^[n + 1] retrying).mem.byte (imageVirgin + i) =
        ((attempt noSignal noJpeg imageVirgin)^[n] retrying).mem.byte (imageVirgin + i)) ↔
    retrying.tsk.rotateData.degrees ≤ 0 ∨
      (getFrame imageVirgin 16 16 retrying.mem.byte).Same 16 16
        (rotated retrying.tsk.rotateData.degrees 16 16
          (getFrame imageVirgin 16 16 retrying.mem.byte)) :=
  failed_captures_iff (show imageVirgin.base ≠ .tempBuf by decide) (w := 16) (h := 16) (by decide)
    (by decide) retrying_setUp (N := 5) (by decide) fun _ _ => noSignal_noFrame _

/-- The white corner moves. -/
theorem failed_capture_corner :
    NoFrame noSignal noJpeg imageVirgin retrying ∧
    ¬ ∀ i, i < 16 * 16 * 3 / 2 →
      (attempt noSignal noJpeg imageVirgin retrying).mem.byte (imageVirgin + i) =
        retrying.mem.byte (imageVirgin + i) := by
  refine ⟨noSignal_noFrame _, fun hsame => ?_⟩
  have hown := (attempt_unchanged_iff (show imageVirgin.base ≠ .tempBuf by decide)
    (w := 16) (h := 16) (by decide) (by decide) retrying_setUp (noSignal_noFrame _)).mp hsame
  have hcorner := hown.y 0 (by decide)
  revert hcorner
  decide

end SmartPrince.Common.FailedCapture

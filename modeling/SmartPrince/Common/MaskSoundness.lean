import SmartPrince.Lib.Run
import SmartPrince.Common.VideoSpec

/-! # The signal mask across captures

`v4l2_next` blocks five signals before it talks to the driver. Three exits
leave them blocked; the fourth takes the old mask out of the new one, where
putting the old one back was meant. So a call that reaches the driver keeps the
mask only if it held the five already and the driver refuses. -/
namespace SmartPrince.Common.MaskSoundness
open SmartPrince.Lib.Memory SmartPrince.Lib.Run SmartPrince.Common.CameraState
open SmartPrince.Common.VideoConv SmartPrince.Common.V4l2 SmartPrince.Common.Video
open SmartPrince.Common.VideoSpec

/-! ## Masks -/

/-- The five signals are blocked. -/
structure AllBlocked (mask : Signal → Bool) : Prop where
  sigchld : mask .sigchld = true
  sigalrm : mask .sigalrm = true
  sigusr1 : mask .sigusr1 = true
  sigterm : mask .sigterm = true
  sighup : mask .sighup = true

theorem blockSignals_eq_iff {mask : Signal → Bool} : blockSignals mask = mask ↔ AllBlocked mask := by
  constructor
  · intro he
    refine ⟨?_, ?_, ?_, ?_, ?_⟩ <;> (rw [← he]; rfl)
  · intro hm
    funext sig
    cases sig with
    | sigchld => exact hm.sigchld.symm
    | sigalrm => exact hm.sigalrm.symm
    | sigusr1 => exact hm.sigusr1.symm
    | sigterm => exact hm.sigterm.symm
    | sighup => exact hm.sighup.symm
    | other n => rfl

/-- Of the five, those that were blocked before are not after, and the others are. -/
theorem unblockSignals_ne (mask : Signal → Bool) : unblockSignals mask (blockSignals mask) ≠ mask := by
  intro he
  have h := congrFun he .sigchld
  simp only [unblockSignals, blockSignals, Bool.true_and] at h
  cases hm : mask .sigchld <;> rw [hm] at h <;> exact absurd h (by decide)

/-! ## One call -/

variable {δ : Type} (D : Driver δ)

/-- The driver when it is asked for a frame. -/
def atDqbuf (c : Cam δ) : δ :=
  if 0 ≤ c.s.pframe then (D.ioctl (.qbuf c.s.buf.index) c.drv).2 else c.drv

/-- The driver does not take the frame held back, or hands out no new one. -/
def Refuses (c : Cam δ) : Prop :=
  (0 ≤ c.s.pframe ∧ ∃ e, answer D (.qbuf c.s.buf.index) c.drv = .error e) ∨
    ∃ e, answer D .dqbuf (atDqbuf D c) = .error e

/-- The call does not reach the driver, or has nothing to undo. -/
def Spared (c : Cam δ) : Prop :=
  c.viddev.v4lFmt ≠ paletteYuv420p ∨ AllBlocked c.sigmask ∧ Refuses D c

variable {D} in
theorem requeued_sigmask {c c₁ : Cam δ} (hq : Requeued D c c₁) : c₁.sigmask = c.sigmask := by
  cases hq with
  | nothing _ => rfl
  | given _ _ => rfl

variable {D} in
theorem requeued_drv {c c₁ : Cam δ} (hq : Requeued D (blocked c) c₁) : c₁.drv = atDqbuf D c := by
  cases hq with
  | nothing hp => exact (if_neg (not_le.mpr hp)).symm
  | given hp _ => exact (if_pos hp).symm

variable {D} in
/-- A frame that arrives was not refused. -/
theorem not_refuses {c c₁ : Cam δ} {b : Dequeued} (hq : Requeued D (blocked c) c₁)
    (ha : answer D .dqbuf c₁.drv = .ok b) : ¬ Refuses D c := by
  rw [requeued_drv hq] at ha
  rintro (⟨hp, e, hqbuf⟩ | ⟨e, hdqbuf⟩)
  · cases hq with
    | nothing hneg => exact absurd hp (not_le.mpr hneg)
    | given _ hok =>
      have hc := hok.symm.trans hqbuf
      cases hc
  · rw [ha] at hdqbuf
    cases hdqbuf

variable (decodeJpegRaw : DecodeJpegRaw)

theorem v4l2Next_sigmask_iff (map : Ptr Buf) (w h : Nat) (c : Cam δ) :
    (v4l2Next D decodeJpegRaw map w h c).2.sigmask = c.sigmask ↔ Spared D c := by
  have hcalled := v4l2Next_called D decodeJpegRaw map w h c
  generalize v4l2Next D decodeJpegRaw map w h c = r at hcalled
  obtain ⟨ret, c'⟩ := r
  cases hcalled with
  | fatal hf => exact iff_of_true rfl (.inl hf)
  | refused hf hp ha =>
    rw [Spared, or_iff_right (not_not.mpr hf), and_iff_left (.inl ⟨hp, _, ha⟩)]
    exact blockSignals_eq_iff
  | missed hf hq ha =>
    have hr : Refuses D c := .inr ⟨_, by rw [← requeued_drv hq]; exact ha⟩
    rw [Spared, or_iff_right (not_not.mpr hf), and_iff_left hr]
    refine Iff.trans (Eq.congr_left ?_) blockSignals_eq_iff
    exact requeued_sigmask hq
  | frame hf hq ha =>
    refine iff_of_false (fun he => ?_) ?_
    · refine unblockSignals_ne c.sigmask (Eq.trans ?_ he)
      exact congrArg (unblockSignals c.sigmask) (requeued_sigmask hq).symm
    · rintro (hne | ⟨-, hr⟩)
      · exact hne hf
      · exact not_refuses hq ha hr

/-! ## A sequence of calls -/

/-- The arguments of a call. -/
structure Capture where
  map : Ptr Buf
  width : Nat
  height : Nat

def capture (c : Cam δ) (e : Capture) : Cam δ :=
  (v4l2Next D decodeJpegRaw e.map e.width e.height c).2

/-- **The mask survives a call, and a sequence of calls, exactly where each is spared.** -/
theorem mask_kept_iff (c : Cam δ) :
    (∀ map w h, (v4l2Next D decodeJpegRaw map w h c).2.sigmask = c.sigmask ↔ Spared D c) ∧
    ∀ es : List Capture,
      (∀ pre post, es = pre ++ post →
        (run (capture D decodeJpegRaw) c pre).sigmask = c.sigmask) ↔
      Always (capture D decodeJpegRaw) (fun c _ => Spared D c) c es := by
  refine ⟨fun map w h => v4l2Next_sigmask_iff D decodeJpegRaw map w h c, fun es => ?_⟩
  have hstep : ∀ (c : Cam δ) (e : Capture),
      (capture D decodeJpegRaw c e).sigmask = c.sigmask ↔ Spared D c := fun c e =>
    v4l2Next_sigmask_iff D decodeJpegRaw e.map e.width e.height c
  exact (kept_iff (f := Cam.sigmask)).trans (always_congr hstep)

/-- A camera that streams, with no signal blocked. -/
def unmasked : Cam Unit where
  tsk := Context.zero
  viddev := { VideoDev.zero with v4lFmt := paletteYuv420p }
  s := { SrcV4l2.zero with pframe := -1, reqCount := mmapBuffers }
  v4l2Private := true
  mem := ⟨fun _ => 0, []⟩
  sigmask _ := false
  drv := ()
  trace := []

/-- A frame arrives, and the five signals stay blocked. -/
theorem mask_not_kept :
    ¬ (v4l2Next (camera ⟨0, 0, ⟨0, 0⟩, fun _ => 0⟩) (fun _ _ _ _ => ⟨0, fun _ _ => none⟩)
      imageVirgin 16 16 unmasked).2.sigmask = unmasked.sigmask := by
  rw [v4l2Next_sigmask_iff]
  rintro (hf | ⟨hm, -⟩)
  · exact hf rfl
  · exact absurd hm.sigchld (by decide)

end SmartPrince.Common.MaskSoundness

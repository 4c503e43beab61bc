import SmartPrince.Common.CaptureSoundness
import SmartPrince.Common.Unseen
import SmartPrince.Common.Yuv420Soundness

/-! # The capture of eight frames, `_motion_capture`

The two buffers that `_motion_diff` compares are meant to take turns, by the
lowest bit of the counter. The mask is 0: every frame is converted into `ref`,
and `out` is whatever it was before. The captures see neither of the two, so
that the frames are those of a run of captures alone. -/
namespace SmartPrince.Eyes.MotionCapture
open SmartPrince.Lib.Program SmartPrince.Lib.Memory SmartPrince.Lib.Hidden
open SmartPrince.Common.CameraState SmartPrince.Common.V4l2 SmartPrince.Common.Video
open SmartPrince.Common.VideoConv SmartPrince.Common.VideoSpec
open SmartPrince.Common.Untouched SmartPrince.Common.Unseen
open SmartPrince.Common.Yuv420p SmartPrince.Common.Yuv420Soundness
open SmartPrince.Common.Yuv422Soundness (yuyvFrame)
open SmartPrince.Common.CaptureSoundness

/-! ## The loop -/

/-- The camera and the global `ConvImg`. -/
structure Eye (δ : Type) where
  cam : Cam δ
  convImg : Ptr Buf

/-- `Task->imgs.ref` and `Task->imgs.out` -/
def refImg : Ptr Buf := ⟨.ref, 0⟩
def outImg : Ptr Buf := ⟨.out, 0⟩

/-- `retry` -/
def retries : Nat := 5

variable {δ : Type} (D : Driver δ) (decodeJpegRaw : DecodeJpegRaw)

/-- Up to `n` captures; whether one succeeded. -/
def retryNext : Nat → Prog (Cam δ) Bool
  | 0 => pure false
  | n + 1 => do
    if (← videoV4l2Next D decodeJpegRaw imageVirgin) = 0 then return true
    else retryNext n

/-- `(count & 0) ? Task->imgs.out : Task->imgs.ref` -/
def chosenImg (count : Nat) : Ptr Buf := if count &&& 0 ≠ 0 then outImg else refImg

/-- The frame held by `image_virgin`, converted into `img`. -/
def convertInto (ppm : Int) (img : Ptr Buf) (c : Cam δ) : Cam δ :=
  if ppm = paletteGrey then
    { c with mem := convYuv420pToGray imageVirgin img c.viddev.width c.viddev.height c.mem }
  else
    { c with mem := convYuv420pToGbr24 imageVirgin img c.viddev.width c.viddev.height c.mem }

/-- A turn of the loop; false where no frame arrived. -/
def motionTurn (ppm : Int) (count : Nat) : Prog (Eye δ) Bool := fun e =>
  let (arrived, cam) := retryNext D decodeJpegRaw retries e.cam
  let count := count + 1
  let convImg := chosenImg count
  if arrived then (true, ⟨convertInto ppm convImg cam, convImg⟩) else (false, ⟨cam, convImg⟩)

/-- The first `count` turns, up to the first without a frame. -/
def motionTurns (ppm : Int) : Nat → Prog (Eye δ) Bool
  | 0 => pure true
  | count + 1 => do
    if (← motionTurns ppm count) then motionTurn D decodeJpegRaw ppm count else return false

def motionCapture (ppm : Int) : Prog (Eye δ) Nat := do
  let diff := 1
  let _ ← motionTurns D decodeJpegRaw ppm 8
  return diff

/-! ## What is compared -/

/-- The camera when `n` frames have arrived, and nothing was converted in between. -/
def captured : Nat → Cam δ → Cam δ
  | 0, c => c
  | n + 1, c => (retryNext D decodeJpegRaw retries (captured n c)).2

/-- The bytes of a picture. -/
def pictureSize (ppm : Int) (c : Cam δ) : Nat :=
  (if ppm = paletteGrey then 1 else 3) * (c.viddev.height * c.viddev.width)

/-- `img` holds in `c'` the conversion of the frame that `image_virgin` holds in `c`. -/
def Holds (ppm : Int) (img : Ptr Buf) (c c' : Cam δ) : Prop :=
  ∀ i, i < pictureSize ppm c → c'.mem.byte (img + i) = (convertInto ppm img c).mem.byte (img + i)

/-- One of the two buffers holds the last frame's conversion and the other that
of the frame before it. -/
def Consecutive (ppm : Int) (e : Eye δ) : Prop :=
  let c := (motionCapture D decodeJpegRaw ppm e).2.cam
  let last := captured D decodeJpegRaw 8 e.cam
  let before := captured D decodeJpegRaw 7 e.cam
  (Holds ppm refImg last c ∧ Holds ppm outImg before c) ∨
    (Holds ppm outImg last c ∧ Holds ppm refImg before c)

/-- The same eye with other bytes in `out`. -/
def Eye.withOut (f : Int → UInt8) (e : Eye δ) : Eye δ :=
  { e with cam := { e.cam with mem := { e.cam.mem with
      byte := fun p => if p.base = .out then f p.off else e.cam.mem.byte p } } }

variable {D decodeJpegRaw} {ppm : Int}

/-! ## The conversion -/

/-- The bytes of a pixel and their number. -/
def pixelBytes (ppm : Int) : Rgb → List UInt8 :=
  if ppm = paletteGrey then fun c => [grayByte c] else gbr24Bytes

def pixelSize (ppm : Int) : Nat := if ppm = paletteGrey then 1 else 3

theorem pixelBytes_length (ppm : Int) (c : Rgb) : (pixelBytes ppm c).length = pixelSize ppm := by
  unfold pixelBytes pixelSize
  split <;> rfl

theorem convertInto_mem (ppm : Int) (img : Ptr Buf) (c : Cam δ) :
    convertInto ppm img c = { c with
      mem := convYuv420p (pixelBytes ppm) imageVirgin img c.viddev.width c.viddev.height c.mem } := by
  unfold convertInto pixelBytes
  split <;> rfl

/-- Byte `i` of the picture of the frame that `image_virgin` holds. -/
def picture (ppm : Int) (c : Cam δ) (i : Nat) : UInt8 :=
  let k := i / pixelSize ppm
  let s := sites rowAhead imageVirgin c.viddev.width c.viddev.height (k % c.viddev.width)
    (k / c.viddev.width)
  (s.pixel (pixelBytes ppm) c.mem.byte).getD (i % pixelSize ppm) 0

/-- Whichever buffer it is converted into. -/
theorem convertInto_byte {img : Ptr Buf} (hb : imageVirgin.base ≠ img.base) (c : Cam δ) {i : Nat}
    (hi : i < pictureSize ppm c) : (convertInto ppm img c).mem.byte (img + i) = picture ppm c i := by
  rw [convertInto_mem]
  dsimp only
  rw [convYuv420p_byte (pixelBytes_length ppm) hb, rendering, patch_in (by exact hi)]
  rfl

theorem holds_iff {img : Ptr Buf} (hb : imageVirgin.base ≠ img.base) {c c' : Cam δ} :
    Holds ppm img c c' ↔ ∀ i, i < pictureSize ppm c → c'.mem.byte (img + i) = picture ppm c i :=
  forall₂_congr fun i hi => by rw [convertInto_byte hb c hi]

variable (ppm) in
/-- Only the bytes of the frame matter. -/
theorem picture_like {hidden : Buf → Prop} (hv : ¬ hidden imageVirgin.base) {c c' : Cam δ}
    (h : Like hidden c c') :
    pictureSize ppm c = pictureSize ppm c' ∧ picture ppm c = picture ppm c' := by
  obtain ⟨m', hm, rfl⟩ := h
  refine ⟨rfl, funext fun i => ?_⟩
  unfold picture
  dsimp only [Sites.pixel, sites]
  rw [hm _ (by exact hv), hm _ (by exact hv), hm _ (by exact hv)]

/-! ## What a turn keeps -/

/-- The set-up is the same, and so are the bytes of `out`. -/
def Kept (c c' : Cam δ) : Prop := SameSetup c c' ∧ Leaves .out c.mem c'.mem

theorem kept_frame : Frame (Kept (δ := δ)) where
  refl c := ⟨sameSetup_frame.refl c, .refl c.mem⟩
  trans h h' := ⟨sameSetup_frame.trans h.1 h'.1, h.2.trans h'.2⟩

theorem apart_out : Apart .out imageVirgin where
  map := by decide
  commonBuffer := by decide
  tempBuf := by decide
  frame _ := by nofun
  yuv _ := by nofun

section Kept
variable (D decodeJpegRaw ppm)

theorem retryNext_kept (n : Nat) : Keeps Kept (retryNext D decodeJpegRaw n) := by
  induction n with
  | zero => exact keeps_pure kept_frame false
  | succ n ih =>
    refine keeps_bind kept_frame (fun c => ?_) fun ret => ?_
    · exact ⟨(videoV4l2Next_setup imageVirgin c).1, videoV4l2Next_leaves apart_out D decodeJpegRaw c⟩
    · exact keeps_ite (keeps_pure kept_frame true) ih

/-- A frame that arrives has the dimensions of the images. -/
theorem retryNext_deviceIs (n : Nat) (c : Cam δ) (h : (retryNext D decodeJpegRaw n c).1 = true) :
    DeviceIs c.tsk.imgs.width c.tsk.imgs.height (retryNext D decodeJpegRaw n c).2 := by
  induction n generalizing c with
  | zero => cases h
  | succ n ih =>
    obtain ⟨hsame, hdim⟩ : SameSetup c (videoV4l2Next D decodeJpegRaw imageVirgin c).2 ∧ _ :=
      videoV4l2Next_setup imageVirgin c
    rw [retryNext, bind_apply] at h ⊢
    by_cases hret : (videoV4l2Next D decodeJpegRaw imageVirgin c).1 = 0
    · rw [if_pos hret]
      exact hdim
    · rw [if_neg hret] at h ⊢
      rw [← hsame.tsk]
      exact ih _ h

omit D in
theorem convertInto_kept (c : Cam δ) : Kept c (convertInto ppm refImg c) := by
  rw [convertInto_mem]
  exact ⟨⟨rfl, rfl, rfl⟩, convYuv420p_leaves (by decide) _ _ _ _ _⟩

theorem captured_kept (n : Nat) (c : Cam δ) : Kept c (captured D decodeJpegRaw n c) := by
  induction n with
  | zero => exact kept_frame.refl c
  | succ n ih => exact kept_frame.trans ih (retryNext_kept D decodeJpegRaw retries _)

/-- The mask is 0. -/
theorem chosenImg_eq (count : Nat) : chosenImg count = refImg := by
  rw [chosenImg, Nat.and_zero, if_neg (by decide)]

theorem motionTurn_eq (count : Nat) (e : Eye δ) :
    motionTurn D decodeJpegRaw ppm count e =
      if (retryNext D decodeJpegRaw retries e.cam).1 = true then
        (true, ⟨convertInto ppm refImg (retryNext D decodeJpegRaw retries e.cam).2, refImg⟩)
      else (false, ⟨(retryNext D decodeJpegRaw retries e.cam).2, refImg⟩) := by
  simp only [motionTurn, chosenImg_eq]
  rfl

theorem motionTurn_kept (count : Nat) (e : Eye δ) :
    Kept e.cam (motionTurn D decodeJpegRaw ppm count e).2.cam := by
  have hretry := retryNext_kept D decodeJpegRaw retries e.cam
  rw [motionTurn_eq]
  split
  · exact kept_frame.trans hretry (convertInto_kept ppm _)
  · exact hretry

theorem motionTurns_kept (count : Nat) (e : Eye δ) :
    Kept e.cam (motionTurns D decodeJpegRaw ppm count e).2.cam := by
  induction count with
  | zero => exact kept_frame.refl e.cam
  | succ count ih =>
    rw [motionTurns, bind_apply]
    split
    · exact kept_frame.trans ih (motionTurn_kept D decodeJpegRaw ppm count _)
    · exact ih

end Kept

/-! ## What a turn does not see -/

theorem apart_ref : Apart .ref imageVirgin where
  map := by decide
  commonBuffer := by decide
  tempBuf := by decide
  frame _ := by nofun
  yuv _ := by nofun

section Seen
variable {hidden : Buf → Prop} (ha : ∀ b, hidden b → Apart b imageVirgin)
include ha

variable (D decodeJpegRaw) in
theorem alike_retryNext (n : Nat) : Alike (Like hidden) (retryNext D decodeJpegRaw n) := by
  induction n with
  | zero => exact alike_pure false
  | succ n ih =>
    refine alike_bind (alike_videoV4l2Next D ha decodeJpegRaw) fun ret => ?_
    exact alike_ite (alike_pure true) ih

variable (D decodeJpegRaw) in
theorem captured_like (n : Nat) {c c' : Cam δ} (h : Like hidden c c') :
    Like hidden (captured D decodeJpegRaw n c) (captured D decodeJpegRaw n c') := by
  induction n with
  | zero => exact h
  | succ n ih => exact (alike_retryNext D decodeJpegRaw ha retries _ _ ih).2

end Seen

/-- The cameras differ in `ref` at most. -/
abbrev LikeRef : Cam δ → Cam δ → Prop := Like (· = .ref)

theorem hidden_ref : ∀ b, b = .ref → Apart b imageVirgin := fun _ hb => hb ▸ apart_ref

theorem convertInto_like (c : Cam δ) : LikeRef c (convertInto ppm refImg c) := by
  rw [convertInto_mem]
  refine ⟨_, agree_of_leaves fun b hb => ?_, rfl⟩
  exact convYuv420p_leaves (by exact fun he => hb he.symm) _ _ _ _ _

/-! ## Eight frames -/

theorem motionCapture_state (e : Eye δ) :
    (motionCapture D decodeJpegRaw ppm e).2 = (motionTurns D decodeJpegRaw ppm 8 e).2 := by
  rw [motionCapture, bind_apply]
  generalize motionTurns D decodeJpegRaw ppm 8 e = r
  rfl

variable (D decodeJpegRaw) in
/-- Each of the first `n` captures, retries included, gets its frame. -/
def Arrive (n : Nat) (c : Cam δ) : Prop :=
  ∀ k, k < n → (retryNext D decodeJpegRaw retries (captured D decodeJpegRaw k c)).1 = true

theorem arrive_succ {n : Nat} {c : Cam δ} : Arrive D decodeJpegRaw (n + 1) c ↔
    Arrive D decodeJpegRaw n c ∧
      (retryNext D decodeJpegRaw retries (captured D decodeJpegRaw n c)).1 = true := by
  constructor
  · intro h
    exact ⟨fun k hk => h k (Nat.lt_succ_of_lt hk), h n (Nat.lt_succ_self n)⟩
  · intro ⟨h, hn⟩ k hk
    rcases Nat.lt_succ_iff_lt_or_eq.mp hk with hk | rfl
    · exact h k hk
    · exact hn

variable (ppm) in
/-- A turn gets the frame that a capture without the conversions gets. -/
theorem motionTurn_like (count : Nat) {c : Cam δ} {e : Eye δ} (hlike : LikeRef c e.cam) :
    (motionTurn D decodeJpegRaw ppm count e).1 = (retryNext D decodeJpegRaw retries c).1 ∧
      ((retryNext D decodeJpegRaw retries c).1 = true →
        ∃ c', LikeRef (retryNext D decodeJpegRaw retries c).2 c' ∧
          (motionTurn D decodeJpegRaw ppm count e).2.cam = convertInto ppm refImg c') := by
  obtain ⟨hret, hcam⟩ := alike_retryNext D decodeJpegRaw hidden_ref retries c e.cam hlike
  rw [motionTurn_eq, hret]
  split
  · next harrived => exact ⟨harrived.symm, fun _ => ⟨_, hcam, rfl⟩⟩
  · next hmissed => exact ⟨(Bool.eq_false_iff.mpr hmissed).symm, fun h => absurd h hmissed⟩

variable (D decodeJpegRaw ppm) in
theorem motionTurns_arrive (n : Nat) (e : Eye δ) :
    ((motionTurns D decodeJpegRaw ppm n e).1 = true ↔ Arrive D decodeJpegRaw n e.cam) ∧
      (Arrive D decodeJpegRaw n e.cam → LikeRef (captured D decodeJpegRaw n e.cam)
        (motionTurns D decodeJpegRaw ppm n e).2.cam) := by
  induction n with
  | zero =>
    exact ⟨iff_of_true rfl fun k hk => absurd hk (Nat.not_lt_zero k), fun _ => like_refl _⟩
  | succ n ih =>
    obtain ⟨hiff, hlike⟩ := ih
    rw [arrive_succ, motionTurns, bind_apply]
    by_cases hall : (motionTurns D decodeJpegRaw ppm n e).1 = true
    · obtain ⟨hret, hcam⟩ := motionTurn_like ppm n (hlike (hiff.mp hall))
      rw [if_pos hall, hret]
      refine ⟨(and_iff_right (hiff.mp hall)).symm, fun ⟨_, harrived⟩ => ?_⟩
      obtain ⟨c', hlast, hturn⟩ := hcam harrived
      rw [hturn]
      exact like_trans hlast (convertInto_like c')
    · rw [if_neg hall]
      exact ⟨iff_of_false Bool.false_ne_true fun h => hall (hiff.mpr h.1),
        fun h => absurd (hiff.mpr h.1) hall⟩

variable (ppm) in
/-- After a turn with a frame, `ref` holds its conversion. -/
theorem motionTurns_converted {n : Nat} {e : Eye δ} (h : Arrive D decodeJpegRaw (n + 1) e.cam) :
    ∃ c', LikeRef (captured D decodeJpegRaw (n + 1) e.cam) c' ∧
      (motionTurns D decodeJpegRaw ppm (n + 1) e).2.cam = convertInto ppm refImg c' := by
  obtain ⟨hbefore, hn⟩ := arrive_succ.mp h
  obtain ⟨hiff, hlike⟩ := motionTurns_arrive D decodeJpegRaw ppm n e
  rw [motionTurns, bind_apply, if_pos (hiff.mpr hbefore)]
  exact (motionTurn_like ppm n (hlike hbefore)).2 hn

variable (ppm) in
/-- A frame that arrives is a picture of the images' size. -/
theorem pictureSize_captured {n : Nat} {c : Cam δ} (h : Arrive D decodeJpegRaw (n + 1) c) :
    pictureSize ppm (captured D decodeJpegRaw (n + 1) c) =
      (if ppm = paletteGrey then 1 else 3) * (c.tsk.imgs.height * c.tsk.imgs.width) := by
  obtain ⟨hw, hh⟩ := retryNext_deviceIs D decodeJpegRaw retries _ (arrive_succ.mp h).2
  rw [(captured_kept D decodeJpegRaw n c).1.tsk] at hw hh
  rw [pictureSize, captured, hw, hh]

section Eight
variable {e : Eye δ} (hall : Arrive D decodeJpegRaw 8 e.cam)
include hall

variable (ppm) in
theorem ref_holds_last : Holds ppm refImg (captured D decodeJpegRaw 8 e.cam)
    (motionCapture D decodeJpegRaw ppm e).2.cam := by
  obtain ⟨c', hlike, hfinal⟩ := motionTurns_converted ppm hall
  obtain ⟨hsize, hpicture⟩ := picture_like ppm (by decide) hlike
  rw [motionCapture_state, hfinal, holds_iff (by decide)]
  intro i hi
  rw [hsize] at hi
  rw [convertInto_byte (by decide) c' hi, hpicture]

omit hall in
variable (D decodeJpegRaw) in
theorem out_holds_iff (c : Cam δ) :
    Holds ppm outImg c (motionCapture D decodeJpegRaw ppm e).2.cam ↔ Holds ppm outImg c e.cam := by
  have hout := (motionTurns_kept D decodeJpegRaw ppm 8 e).2
  rw [motionCapture_state]
  generalize (motionTurns D decodeJpegRaw ppm 8 e).2.cam = c' at *
  exact forall₂_congr fun i _ => by rw [hout (outImg + i) rfl]

theorem consecutive_iff : Consecutive D decodeJpegRaw ppm e ↔
    Holds ppm outImg (captured D decodeJpegRaw 7 e.cam) e.cam := by
  have href := ref_holds_last ppm hall
  rw [← out_holds_iff D decodeJpegRaw]
  constructor
  · rintro (⟨-, hbefore⟩ | ⟨hlast, hbefore⟩)
    · exact hbefore
    · -- `ref` holds both frames' conversions, so that they are the same
      have hsize : pictureSize ppm (captured D decodeJpegRaw 8 e.cam) =
          pictureSize ppm (captured D decodeJpegRaw 7 e.cam) := by
        rw [pictureSize_captured ppm hall, pictureSize_captured ppm (arrive_succ.mp hall).1]
      rw [holds_iff (by decide)] at hlast hbefore href ⊢
      rw [hsize] at hlast href
      intro i hi
      exact (hlast i hi).trans ((href i hi).symm.trans (hbefore i hi))
  · intro hbefore
    exact .inl ⟨href, hbefore⟩

end Eight

/-! ## Whatever `out` holds -/

theorem hidden_out : ∀ b, b = .out → Apart b imageVirgin := fun _ hb => hb ▸ apart_out

theorem withOut_like (f : Int → UInt8) (e : Eye δ) : Like (· = .out) e.cam (e.withOut f).cam :=
  ⟨_, fun _ hp => (if_neg hp).symm, rfl⟩

theorem withOut_out (f : Int → UInt8) (e : Eye δ) (i : Nat) :
    (e.withOut f).cam.mem.byte (outImg + i) = f i := by
  unfold Eye.withOut
  dsimp only
  rw [if_pos (show (outImg + i).base = .out from rfl), Ptr.add_off, outImg, Int.zero_add]

theorem withOut_arrive (f : Int → UInt8) {e : Eye δ} {n : Nat}
    (h : Arrive D decodeJpegRaw n e.cam) : Arrive D decodeJpegRaw n (e.withOut f).cam := by
  intro k hk
  have hlike := captured_like D decodeJpegRaw hidden_out k (withOut_like f e)
  rw [← (alike_retryNext D decodeJpegRaw hidden_out retries _ _ hlike).1]
  exact h k hk

/-- The frame before the last one does not depend on `out`. -/
theorem withOut_consecutive (f : Int → UInt8) {e : Eye δ} (hall : Arrive D decodeJpegRaw 8 e.cam) :
    Consecutive D decodeJpegRaw ppm (e.withOut f) ↔
      ∀ i, i < pictureSize ppm (captured D decodeJpegRaw 7 e.cam) →
        f i = picture ppm (captured D decodeJpegRaw 7 e.cam) i := by
  have hlike := captured_like D decodeJpegRaw hidden_out 7 (withOut_like f e)
  obtain ⟨hsize, hpicture⟩ := picture_like ppm (by decide) hlike
  rw [consecutive_iff (withOut_arrive f hall), holds_iff (by decide), ← hsize, ← hpicture]
  exact forall₂_congr fun i _ => by rw [withOut_out]

/-- **The two buffers hold consecutive frames exactly if `out` held the seventh
of the eight already.** So that they do whatever it held, the frames must be empty. -/
theorem motion_capture_iff (D : Driver δ) (decodeJpegRaw : DecodeJpegRaw) (ppm : Int) (e : Eye δ)
    (hall : (motionTurns D decodeJpegRaw ppm 8 e).1 = true) :
    (Consecutive D decodeJpegRaw ppm e ↔
      Holds ppm outImg (captured D decodeJpegRaw 7 e.cam) e.cam) ∧
    ((∀ f, Consecutive D decodeJpegRaw ppm (e.withOut f)) ↔
      e.cam.tsk.imgs.width * e.cam.tsk.imgs.height = 0) := by
  have harrive := (motionTurns_arrive D decodeJpegRaw ppm 8 e).1.mp hall
  have hsize := pictureSize_captured ppm (arrive_succ.mp harrive).1
  refine ⟨consecutive_iff harrive, ?_⟩
  constructor
  · intro hcon
    by_contra hne
    have hpos : 0 < pictureSize ppm (captured D decodeJpegRaw 7 e.cam) := by
      rw [hsize, Nat.mul_comm e.cam.tsk.imgs.height]
      refine Nat.mul_pos ?_ (Nat.pos_of_ne_zero hne)
      split <;> decide
    have hzero := (withOut_consecutive (fun _ => 0) harrive).mp (hcon _) 0 hpos
    have hone := (withOut_consecutive (fun _ => 1) harrive).mp (hcon _) 0 hpos
    exact absurd (hzero.trans hone.symm) (by decide)
  · intro hempty f
    refine (withOut_consecutive f harrive).mpr fun i hi => ?_
    rw [hsize, Nat.mul_comm e.cam.tsk.imgs.height, hempty, Nat.mul_zero] at hi
    exact absurd hi (Nat.not_lt_zero i)

/-! ## A camera that always delivers -/

section Camera
variable {b : Dequeued} {l : Layout} {c : Cam Unit} (hv : c.viddev.v4lFmt = paletteYuv420p)
  (hf : c.s.fmt.pixelformat = l.fmt)
include hv hf

variable (decodeJpegRaw b) in
/-- Its first capture of a turn succeeds. -/
theorem camera_frame (n : Nat) :
    let c₀ := captured (camera b) decodeJpegRaw n c
    (videoV4l2Next (camera b) decodeJpegRaw imageVirgin c₀).1 = 0 ∧
      retryNext (camera b) decodeJpegRaw retries c₀ =
        (true, (videoV4l2Next (camera b) decodeJpegRaw imageVirgin c₀).2) := by
  intro c₀
  have hkept := (captured_kept (camera b) decodeJpegRaw n c).1
  have hret : (videoV4l2Next (camera b) decodeJpegRaw imageVirgin c₀).1 = 0 :=
    camera_succeeds decodeJpegRaw b imageVirgin (hkept.v4lFmt.trans hv) (by rw [hkept.fmt, hf])
  refine ⟨hret, ?_⟩
  rw [retries, retryNext, bind_apply, if_pos hret]
  rfl

theorem camera_arrive (n : Nat) : Arrive (camera b) decodeJpegRaw n c := fun k _ => by
  rw [(camera_frame decodeJpegRaw b hv hf k).2]

end Camera

/-- Four white pixels are captured, and every buffer was allocated with zeros. -/
def white : Dequeued := ⟨0, 0, ⟨0, 0⟩, fun _ => 255⟩

def firstEye : Eye Unit := ⟨poised () ⟨fun _ => 0, []⟩ 0 .yuyv 2 2, refImg⟩

theorem white_arrive (decodeJpegRaw : DecodeJpegRaw) (n : Nat) :
    Arrive (camera white) decodeJpegRaw n firstEye.cam := camera_arrive (l := .yuyv) rfl rfl n

theorem motion_capture_white :
    (Consecutive (camera white) (fun _ _ _ _ => ⟨0, fun _ _ => none⟩) paletteGrey firstEye ↔
      Holds paletteGrey outImg
        (captured (camera white) (fun _ _ _ _ => ⟨0, fun _ _ => none⟩) 7 firstEye.cam)
        firstEye.cam) ∧
    ((∀ f, Consecutive (camera white) (fun _ _ _ _ => ⟨0, fun _ _ => none⟩) paletteGrey
        (firstEye.withOut f)) ↔
      firstEye.cam.tsk.imgs.width * firstEye.cam.tsk.imgs.height = 0) :=
  motion_capture_iff _ _ _ _ ((motionTurns_arrive _ _ _ 8 firstEye).1.mpr (white_arrive _ 8))

variable (decodeJpegRaw) in
theorem white_frame (n : Nat) :
    let c := captured (camera white) decodeJpegRaw (n + 1) firstEye.cam
    DeviceIs 2 2 c ∧ (getFrame imageVirgin 2 2 c.mem.byte).Same 2 2 (yuyvFrame 2 white.frame) := by
  intro c
  have hkept := (captured_kept (camera white) decodeJpegRaw n firstEye.cam).1
  obtain ⟨hret, hnext⟩ := camera_frame decodeJpegRaw white (l := .yuyv) (c := firstEye.cam) rfl rfl n
  have hc : c = (videoV4l2Next (camera white) decodeJpegRaw imageVirgin _).2 :=
    congrArg Prod.snd hnext
  rw [hc]
  generalize captured (camera white) decodeJpegRaw n firstEye.cam = c₀ at *
  have hs : SetUp (picturing 0 2 2) c₀.tsk 2 2 :=
    hkept.tsk ▸ poised_setUp () ⟨fun _ => 0, []⟩ 0 .yuyv 2 2
  obtain ⟨d, b, rest, hb, -, hframe⟩ := videoV4l2Next_success (l := .yuyv) (by decide) (by decide)
    (by decide) (by nofun) hs (by rw [hkept.fmt]; rfl) hret
  cases hb
  have hdim : DeviceIs _ _ (videoV4l2Next (camera white) decodeJpegRaw imageVirgin c₀).2 :=
    (videoV4l2Next_setup imageVirgin c₀).2
  rw [hkept.tsk] at hframe hdim
  exact ⟨hdim, hframe⟩

/-- The picture is white, and `out` still black. -/
theorem motion_capture_stale :
    ¬ Consecutive (camera white) (fun _ _ _ _ => ⟨0, fun _ _ => none⟩) paletteGrey firstEye := by
  intro hcon
  have hout := (consecutive_iff (white_arrive _ 8)).mp hcon
  obtain ⟨⟨hw, hh⟩, hframe⟩ := white_frame (fun _ _ _ _ => ⟨0, fun _ _ => none⟩) 6
  rw [holds_iff (by decide)] at hout
  generalize captured (camera white) _ 7 firstEye.cam = c at *
  have hfirst := hout 0 (by rw [pictureSize, hw, hh]; decide)
  have hpixel : picture paletteGrey c 0 = grayByte (rgbOf (c.mem.byte (imageVirgin + 0))
      (c.mem.byte (uPlane imageVirgin 2 2 + 0)) (c.mem.byte (vPlane imageVirgin 2 2 + 0))) := by
    rw [picture, hw, hh]
    rfl
  have hl : c.mem.byte (imageVirgin + 0) = 255 := hframe.y 0 (by decide)
  have hu : c.mem.byte (uPlane imageVirgin 2 2 + 0) = 255 := hframe.u 0 (by decide)
  have hv : c.mem.byte (vPlane imageVirgin 2 2 + 0) = 255 := hframe.v 0 (by decide)
  rw [hpixel, hl, hu, hv] at hfirst
  exact absurd hfirst (by decide)

end SmartPrince.Eyes.MotionCapture

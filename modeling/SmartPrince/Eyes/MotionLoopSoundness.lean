import SmartPrince.Eyes.Motion
import SmartPrince.Eyes.MotionLoop
import SmartPrince.Lib.Run

/-! # What the watching thread leaves behind

Over every run of `motion_thread_loop`: which file holds which picture, and
which picture is looked at for faces, where any capture may fail and any file
may not be opened. -/
namespace SmartPrince.Eyes.MotionLoopSoundness
open SmartPrince.Lib.CString SmartPrince.Lib.Memory SmartPrince.Lib.Program SmartPrince.Lib.Run
open SmartPrince.Common.CameraState SmartPrince.Common.V4l2 SmartPrince.Common.VideoConv
open SmartPrince.Common.VideoSpec SmartPrince.Common.JpegEncode SmartPrince.Common.Untouched
open SmartPrince.Common.Video (videoV4l2Next)
open SmartPrince.Common.File (decimal)
open SmartPrince.Common.MaskFile SmartPrince.Common.Picture
open SmartPrince.Eyes.Motion (colorMode)
open SmartPrince.Eyes.MotionCapture SmartPrince.Eyes.MotionLoop

/-! ## File names -/

section Names

theorem digitsValue_zeros (k : Nat) (digits : List UInt8) :
    digitsValue (List.replicate k '0'.toUInt8 ++ digits) = digitsValue digits := by
  induction k with
  | zero => rfl
  | succ k ih => exact ih

/-- The digits of a number, with zeros before them. -/
theorem zeros_injective {j k m n : Nat}
    (h : List.replicate j '0'.toUInt8 ++ decimal m = List.replicate k '0'.toUInt8 ++ decimal n) :
    m = n := by
  have hvalue := congrArg digitsValue h
  rwa [digitsValue_zeros, digitsValue_zeros, digitsValue_decimal, digitsValue_decimal] at hvalue

theorem zeros_digits (k n : Nat) :
    ∀ c ∈ List.replicate k '0'.toUInt8 ++ decimal n, isdigit c = true := by
  intro c hc
  rcases List.mem_append.mp hc with hc | hc
  · rw [List.eq_of_mem_replicate hc]
    rfl
  · exact decimal_digits n c hc

theorem padded_cases (n : Int) : ∃ k, padded n =
    (if n < 0 then ['-'.toUInt8] else []) ++ (List.replicate k '0'.toUInt8 ++ decimal n.natAbs) :=
  ⟨_, List.append_assoc _ _ _⟩

theorem padded_injective {m n : Int} (h : padded m = padded n) : m = n := by
  obtain ⟨j, hm⟩ := padded_cases m
  obtain ⟨k, hn⟩ := padded_cases n
  rw [hm, hn] at h
  have hminus (k n : Nat) (l : List UInt8) :
      '-'.toUInt8 :: l ≠ List.replicate k '0'.toUInt8 ++ decimal n := fun he => by
    have hdigit := zeros_digits k n _ (he ▸ List.mem_cons_self)
    cases hdigit
  by_cases hm0 : m < 0
  · by_cases hn0 : n < 0
    · rw [if_pos hm0, if_pos hn0] at h
      have habs := zeros_injective (List.cons.inj h).2
      omega
    · rw [if_pos hm0, if_neg hn0] at h
      exact absurd h (hminus _ _ _)
  · by_cases hn0 : n < 0
    · rw [if_neg hm0, if_pos hn0] at h
      exact absurd h.symm (hminus _ _ _)
    · rw [if_neg hm0, if_neg hn0] at h
      have habs := zeros_injective h
      omega

theorem fname_injective {a b : BitVec 32} {tsk : Context} (h : fname a tsk = fname b tsk) : a = b := by
  unfold fname at h
  rw [List.append_left_inj, List.append_left_inj, List.append_right_inj] at h
  exact BitVec.eq_of_toInt_eq (padded_injective h)

/-- Ten digits and a sign at most. -/
theorem padded_length (count : BitVec 32) : (padded count.toInt).length ≤ 11 := by
  have hdigits : (decimal count.toInt.natAbs).length ≤ 10 := by
    have hlo := BitVec.le_toInt count
    have hhi := BitVec.toInt_lt (x := count)
    rw [decimal_nat, List.length_map, Nat.length_toDigits_le_iff (by decide) (by decide)]
    omega
  unfold padded
  generalize decimal count.toInt.natAbs = digits at *
  split <;> simp <;> omega

/-- The array holds every name, and its NUL. -/
theorem fname_length (count : BitVec 32) (tsk : Context) : (fname count tsk).length < 80 := by
  have hpadded := padded_length count
  have hext : (imageext tsk).length = 3 := by
    unfold imageext
    split <;> rfl
  have hdir : pathDataMlBak1.length = 20 := by decide
  have himg : (ofText "/img_").length = 5 := by decide
  have hdot : (ofText ".").length = 1 := by decide
  simp only [fname, List.length_append, hext, hdir, himg, hdot]
  omega

end Names

/-! ## Pictures that are saved -/

section Saved
variable {δ : Type} {D : Driver δ} {decodeJpegRaw : DecodeJpegRaw} {runMode : BitVec 32}

/-- Whether a turn saves a picture, when it captures at all. -/
def Turn.saves (t : Turn) : Bool := !t.faceProcessing && t.opening = .opened

/-- The number of turn `k`, as the name of its picture has it. -/
def number (s : World δ) (k : Nat) : BitVec 32 := (s.cnt + BitVec.ofNat 64 (k + 1)).setWidth 32

theorem motionCapture_kept (ppm : Int) (e : Eye δ) :
    Kept e.cam (motionCapture D decodeJpegRaw ppm e).2.cam := by
  rw [motionCapture_state]
  exact motionTurns_kept D decodeJpegRaw ppm 8 e

/-- The next turn of the counter. -/
def counted (s : World δ) : World δ := { s with cnt := s.cnt + 1 }

section Turns
variable (D decodeJpegRaw runMode) (s : World δ) {t : Turn}

theorem loopTurn_waits (hface : t.faceProcessing = true) :
    loopTurn D decodeJpegRaw runMode s t = counted s := by
  unfold loopTurn
  exact if_pos hface

theorem loopTurn_saves (hface : ¬ t.faceProcessing = true) (hmode : runMode &&& configModeCap ≠ 0) :
    loopTurn D decodeJpegRaw runMode s t = motionWritePicture ((s.cnt + 1).setWidth 32) t.opening
      (capture D decodeJpegRaw paletteYuv420p (counted s)) := by
  unfold loopTurn
  exact (if_neg hface).trans (if_pos hmode)

theorem loopTurn_looks (hface : ¬ t.faceProcessing = true) (hmode : ¬ runMode &&& configModeCap ≠ 0) :
    loopTurn D decodeJpegRaw runMode s t =
      motionFaceDetection (capture D decodeJpegRaw paletteGrey (counted s)) := by
  unfold loopTurn
  exact (if_neg hface).trans (if_neg hmode)

end Turns

@[simp] theorem putPicture_eye (opening : Opening) (file : List UInt8) (image : Ptr Buf) (s : World δ) :
    (putPicture opening file image s).eye = s.eye := by
  cases opening <;> rfl

@[simp] theorem putPicture_cnt (opening : Opening) (file : List UInt8) (image : Ptr Buf) (s : World δ) :
    (putPicture opening file image s).cnt = s.cnt := by
  cases opening <;> rfl

@[simp] theorem motionFaceDetection_eye (s : World δ) : (motionFaceDetection s).eye = s.eye := rfl

theorem capture_eye (ppm : Int) (s : World δ) :
    (capture D decodeJpegRaw ppm s).eye = (motionCapture D decodeJpegRaw ppm s.eye).2 := by
  rw [capture]

theorem capture_kept (ppm : Int) (s : World δ) :
    Kept s.eye.cam (capture D decodeJpegRaw ppm s).eye.cam := motionCapture_kept ppm s.eye

/-- Every turn is counted, and leaves the set-up as it is. -/
theorem loopTurn_kept (s : World δ) (t : Turn) :
    (loopTurn D decodeJpegRaw runMode s t).cnt = s.cnt + 1 ∧
      (loopTurn D decodeJpegRaw runMode s t).eye.cam.tsk = s.eye.cam.tsk := by
  by_cases hface : t.faceProcessing = true
  · rw [loopTurn_waits D decodeJpegRaw runMode s hface]
    exact ⟨rfl, rfl⟩
  · by_cases hmode : runMode &&& configModeCap ≠ 0
    · rw [loopTurn_saves D decodeJpegRaw runMode s hface hmode, motionWritePicture, putPicture_eye,
        putPicture_cnt]
      exact ⟨rfl, (capture_kept paletteYuv420p (counted s)).1.tsk⟩
    · rw [loopTurn_looks D decodeJpegRaw runMode s hface hmode]
      exact ⟨rfl, (capture_kept paletteGrey (counted s)).1.tsk⟩

theorem run_kept (s : World δ) (ts : List Turn) :
    (run (loopTurn D decodeJpegRaw runMode) s ts).cnt = s.cnt + BitVec.ofNat 64 ts.length ∧
      (run (loopTurn D decodeJpegRaw runMode) s ts).eye.cam.tsk = s.eye.cam.tsk := by
  induction ts generalizing s with
  | nil => exact ⟨(BitVec.add_zero s.cnt).symm, rfl⟩
  | cons t ts ih =>
    obtain ⟨hcnt, htsk⟩ := @loopTurn_kept _ D decodeJpegRaw runMode s t
    obtain ⟨hcnt', htsk'⟩ := ih (loopTurn D decodeJpegRaw runMode s t)
    refine ⟨hcnt'.trans ?_, htsk'.trans htsk⟩
    rw [hcnt, List.length_cons, Nat.add_comm, BitVec.ofNat_add, BitVec.add_assoc]
    rfl

theorem number_toNat (s : World δ) (k : Nat) :
    (number s k).toNat = (s.cnt.toNat + (k + 1)) % 2 ^ 32 := by
  rw [number, BitVec.toNat_setWidth, BitVec.toNat_add, BitVec.toNat_ofNat]
  omega

theorem number_next {s s' : World δ} (hcnt : s'.cnt = s.cnt + 1) (k : Nat) :
    number s' k = number s (k + 1) := by
  apply BitVec.eq_of_toNat_eq
  rw [number_toNat, number_toNat, hcnt, BitVec.toNat_add]
  change ((s.cnt.toNat + 1) % 2 ^ 64 + (k + 1)) % 2 ^ 32 = _
  omega

theorem number_run {s s' : World δ} {n : Nat} (hcnt : s'.cnt = s.cnt + BitVec.ofNat 64 n) (k : Nat) :
    number s' k = number s (n + k) := by
  apply BitVec.eq_of_toNat_eq
  rw [number_toNat, number_toNat, hcnt, BitVec.toNat_add, BitVec.toNat_ofNat]
  omega

/-- Numbers come again after 2^32 turns. -/
theorem number_eq_iff (s : World δ) (k n : Nat) : number s (k + n) = number s k ↔ 2 ^ 32 ∣ n := by
  rw [← BitVec.toNat_inj, number_toNat, number_toNat]
  omega

/-- A picture as it is saved. -/
def savedPicture (tsk : Context) (s : World δ) : Content :=
  .jpeg (putJpegYuv420p tsk.imgs.width tsk.imgs.height) tsk.conf.quality fun i =>
    s.eye.cam.mem.byte (imageVirgin + i)

theorem putPictureFd_jpeg {tsk : Context} (hppm : tsk.conf.ppm = paletteYuv420p)
    (htype : tsk.imgs.type = paletteYuv420p) (mem : Mem Buf) (image : Ptr Buf) (quality : Int) :
    putPictureFd tsk mem image quality =
      .jpeg (putJpegYuv420p tsk.imgs.width tsk.imgs.height) quality fun i => mem.byte (image + i) := by
  rw [putPictureFd, hppm, htype, if_neg (by decide), if_neg (by decide), if_pos rfl]

section Mode
variable (hmode : runMode &&& configModeCap ≠ 0) {s : World δ} {t : Turn}
include hmode

theorem loopTurn_files (hppm : s.eye.cam.tsk.conf.ppm = paletteYuv420p)
    (htype : s.eye.cam.tsk.imgs.type = paletteYuv420p) :
    (loopTurn D decodeJpegRaw runMode s t).files =
      if Turn.saves t then Function.update s.files (fname ((s.cnt + 1).setWidth 32) s.eye.cam.tsk)
        (some (savedPicture s.eye.cam.tsk (loopTurn D decodeJpegRaw runMode s t)))
      else s.files := by
  by_cases hface : t.faceProcessing = true
  · rw [loopTurn_waits D decodeJpegRaw runMode s hface, Turn.saves, hface]
    rfl
  · rw [loopTurn_saves D decodeJpegRaw runMode s hface hmode, Turn.saves, Bool.eq_false_iff.mpr hface]
    have htsk := (@capture_kept _ D decodeJpegRaw paletteYuv420p (counted s)).1.tsk
    have hfiles : (capture D decodeJpegRaw paletteYuv420p (counted s)).files = s.files := rfl
    change _ = s.eye.cam.tsk at htsk
    generalize capture D decodeJpegRaw paletteYuv420p (counted s) = s' at *
    rw [motionWritePicture, htsk]
    cases t.opening with
    | opened =>
      rw [putPicture, htsk, putPictureFd_jpeg hppm htype, hfiles]
      rfl
    | eacces | failed => exact hfiles

/-- A file stays what it is while no turn saves under its name. -/
theorem run_file {tsk : Context} (hppm : tsk.conf.ppm = paletteYuv420p)
    (htype : tsk.imgs.type = paletteYuv420p) (ts : List Turn) (htsk : s.eye.cam.tsk = tsk)
    (name : List UInt8)
    (hother : ∀ k t, ts[k]? = some t → Turn.saves t = true → name ≠ fname (number s k) tsk) :
    (run (loopTurn D decodeJpegRaw runMode) s ts).files name = s.files name := by
  induction ts generalizing s with
  | nil => rfl
  | cons t ts ih =>
    obtain ⟨hcnt, htsk'⟩ := @loopTurn_kept _ D decodeJpegRaw runMode s t
    have htail := ih (htsk'.trans htsk) fun k t' hk ht' => by
      rw [number_next hcnt]
      exact hother (k + 1) t' hk ht'
    refine htail.trans ?_
    rw [loopTurn_files hmode (by rw [htsk]; exact hppm) (by rw [htsk]; exact htype), htsk]
    split
    · next hsaves => exact Function.update_of_ne (hother 0 t rfl hsaves) _ _
    · rfl

end Mode

end Saved

/-- **A picture that is saved stays in its file until, a multiple of 2^32 turns
later, one is saved under the same name**, and no other file is written. Every
name fits into its array. -/
theorem pictures_kept {δ : Type} (D : Driver δ) (decodeJpegRaw : DecodeJpegRaw) {runMode : BitVec 32}
    (hmode : runMode &&& configModeCap ≠ 0) (s : World δ)
    (hppm : s.eye.cam.tsk.conf.ppm = paletteYuv420p)
    (htype : s.eye.cam.tsk.imgs.type = paletteYuv420p) (ts : List Turn) :
    (∀ pre t post, ts = pre ++ t :: post → Turn.saves t = true →
      (∀ j t', post[j]? = some t' → Turn.saves t' = true → ¬ 2 ^ 32 ∣ j + 1) →
      (run (loopTurn D decodeJpegRaw runMode) s ts).files (fname (number s pre.length) s.eye.cam.tsk) =
        some (savedPicture s.eye.cam.tsk (run (loopTurn D decodeJpegRaw runMode) s (pre ++ [t])))) ∧
    (∀ name, (∀ k t, ts[k]? = some t → Turn.saves t = true →
        name ≠ fname (number s k) s.eye.cam.tsk) →
      (run (loopTurn D decodeJpegRaw runMode) s ts).files name = s.files name) ∧
    ∀ count, (fname count s.eye.cam.tsk).length < 80 := by
  refine ⟨?_, fun name => run_file hmode hppm htype ts rfl name, fun count => fname_length count _⟩
  rintro pre t post rfl hsaves hlast
  obtain ⟨hcnt, htsk⟩ := @run_kept _ D decodeJpegRaw runMode s pre
  have hstep : ∀ us, run (loopTurn D decodeJpegRaw runMode) s (pre ++ us) =
      run (loopTurn D decodeJpegRaw runMode) (run (loopTurn D decodeJpegRaw runMode) s pre) us := fun us =>
    List.foldl_append
  rw [hstep, hstep]
  generalize run (loopTurn D decodeJpegRaw runMode) s pre = s₁ at *
  obtain ⟨hcnt', htsk'⟩ := @loopTurn_kept _ D decodeJpegRaw runMode s₁ t
  have hpost := @run_file _ D decodeJpegRaw runMode hmode _ _ hppm htype post (htsk'.trans htsk)
    (fname (number s pre.length) s.eye.cam.tsk) fun j t' hj ht' he => by
      rw [number_next hcnt', number_run hcnt] at he
      exact hlast j t' hj ht' ((number_eq_iff s pre.length (j + 1)).mp (fname_injective he).symm)
  have hfiles := @loopTurn_files _ D decodeJpegRaw _ hmode s₁ t (by rw [htsk]; exact hppm)
    (by rw [htsk]; exact htype)
  have hnumber : (s₁.cnt + 1).setWidth 32 = number s pre.length := number_run hcnt 0
  refine hpost.trans ?_
  rw [hfiles, if_pos hsaves, hnumber, htsk, Function.update_self]
  rfl

/-- The start of a thread that saves colour pictures of a white wall. -/
def saving : World Unit where
  eye := { firstEye with
    cam := { firstEye.cam with tsk := colorMode 1 firstEye.cam.viddev firstEye.cam.tsk } }
  cnt := 0
  files _ := none
  cntFinish := false
  cntRestart := false
  handed := []

/-- A frame that `libjpeg` cannot decode. -/
def undecoded : DecodeJpegRaw := fun _ _ _ _ => ⟨0, fun _ _ => none⟩

theorem pictures_kept_first :
    (run (loopTurn (camera white) undecoded configModeCap) saving [⟨false, .opened⟩, ⟨true, .opened⟩]).files
        (ofText "/home/pi/nfs/ml/bak1/img_00000001.jpg") =
      some (savedPicture saving.eye.cam.tsk
        (run (loopTurn (camera white) undecoded configModeCap) saving [⟨false, .opened⟩])) := by
  have hname : fname (number saving 0) saving.eye.cam.tsk =
      ofText "/home/pi/nfs/ml/bak1/img_00000001.jpg" := by decide +kernel
  rw [← hname]
  refine (pictures_kept (camera white) undecoded (by decide) saving rfl rfl _).1 [] ⟨false, .opened⟩
    [⟨true, .opened⟩] rfl rfl fun j t hj ht => ?_
  cases j with
  | zero =>
    cases hj
    cases ht
  | succ j => cases hj

/-! ## Pictures that are looked at -/

section Looked
variable {δ : Type} {D : Driver δ} {decodeJpegRaw : DecodeJpegRaw} {ppm : Int}

variable (D decodeJpegRaw) in
/-- How many of `n` frames arrive before the first that does not. -/
def arrivals : Nat → Cam δ → Nat
  | 0, _ => 0
  | n + 1, c =>
    if (retryNext D decodeJpegRaw retries c).1 then
      arrivals n (retryNext D decodeJpegRaw retries c).2 + 1
    else 0

theorem captured_next (n : Nat) (c : Cam δ) : captured D decodeJpegRaw (n + 1) c =
    captured D decodeJpegRaw n (retryNext D decodeJpegRaw retries c).2 := by
  induction n with
  | zero => rfl
  | succ n ih => rw [captured, ih, captured]

theorem arrivals_spec (n : Nat) (c : Cam δ) :
    Arrive D decodeJpegRaw (arrivals D decodeJpegRaw n c) c ∧
      (arrivals D decodeJpegRaw n c = n ∨ arrivals D decodeJpegRaw n c < n ∧
        (retryNext D decodeJpegRaw retries
          (captured D decodeJpegRaw (arrivals D decodeJpegRaw n c) c)).1 = false) := by
  induction n generalizing c with
  | zero => exact ⟨fun k hk => absurd hk (Nat.not_lt_zero k), .inl rfl⟩
  | succ n ih =>
    rw [arrivals]
    cases hret : (retryNext D decodeJpegRaw retries c).1 with
    | false =>
      rw [if_neg Bool.false_ne_true]
      exact ⟨fun k hk => absurd hk (Nat.not_lt_zero k), .inr ⟨Nat.succ_pos n, hret⟩⟩
    | true =>
      obtain ⟨harrive, hstop⟩ := ih (retryNext D decodeJpegRaw retries c).2
      rw [if_pos rfl, captured_next]
      refine ⟨fun k hk => ?_, hstop.imp (congrArg (· + 1)) fun h => ⟨Nat.succ_lt_succ h.1, h.2⟩⟩
      cases k with
      | zero => exact hret
      | succ k =>
        rw [captured_next]
        exact harrive k (Nat.lt_of_succ_lt_succ hk)

/-! ## What one capture leaves in `ref` -/

variable (D decodeJpegRaw) in
/-- A capture does not touch `ref`, keeps the set-up, and leaves the device at
the images' dimensions. -/
theorem retryNext_leaves (n : Nat) (c : Cam δ) :
    Leaves .ref c.mem (retryNext D decodeJpegRaw (n + 1) c).2.mem ∧
      (retryNext D decodeJpegRaw (n + 1) c).2.tsk = c.tsk ∧
      DeviceIs c.tsk.imgs.width c.tsk.imgs.height (retryNext D decodeJpegRaw (n + 1) c).2 := by
  have hleaves := videoV4l2Next_leaves apart_ref D decodeJpegRaw
  induction n generalizing c with
  | zero =>
    obtain ⟨hsame, hdim⟩ : SameSetup c (videoV4l2Next D decodeJpegRaw imageVirgin c).2 ∧ _ :=
      videoV4l2Next_setup imageVirgin c
    rw [retryNext, bind_apply]
    split <;> exact ⟨hleaves c, hsame.tsk, hdim⟩
  | succ n ih =>
    obtain ⟨hsame, hdim⟩ : SameSetup c (videoV4l2Next D decodeJpegRaw imageVirgin c).2 ∧ _ :=
      videoV4l2Next_setup imageVirgin c
    rw [retryNext, bind_apply]
    split
    · exact ⟨hleaves c, hsame.tsk, hdim⟩
    · obtain ⟨hmem, htsk, hdim'⟩ := ih (videoV4l2Next D decodeJpegRaw imageVirgin c).2
      rw [hsame.tsk] at hdim' htsk
      exact ⟨(hleaves c).trans hmem, htsk, hdim'⟩

/-- Whatever arrives, the last buffer converted into is `ref`, and the device
has the images' dimensions. -/
theorem motionTurns_end (n : Nat) (e : Eye δ) :
    let e' := (motionTurns D decodeJpegRaw ppm (n + 1) e).2
    e'.convImg = refImg ∧ DeviceIs e.cam.tsk.imgs.width e.cam.tsk.imgs.height e'.cam := by
  have hturn (count : Nat) (f : Eye δ) (htsk : f.cam.tsk = e.cam.tsk) :
      (motionTurn D decodeJpegRaw ppm count f).2.convImg = refImg ∧
        DeviceIs e.cam.tsk.imgs.width e.cam.tsk.imgs.height (motionTurn D decodeJpegRaw ppm count f).2.cam := by
    obtain ⟨-, -, hdim⟩ := retryNext_leaves D decodeJpegRaw 4 f.cam
    rw [htsk] at hdim
    rw [motionTurn_eq]
    split
    · rw [convertInto_mem]
      exact ⟨rfl, hdim⟩
    · exact ⟨rfl, hdim⟩
  induction n with
  | zero => exact hturn 0 e rfl
  | succ n ih =>
    have hkept := (motionTurns_kept D decodeJpegRaw ppm (n + 1) e).1.tsk
    rw [motionTurns, bind_apply]
    split
    · exact hturn (n + 1) _ hkept
    · exact ih

/-- After the frame that does not arrive there are no more turns. -/
theorem motionTurns_stop {a : Nat} {e : Eye δ} (harrive : Arrive D decodeJpegRaw a e.cam)
    (hstop : (retryNext D decodeJpegRaw retries (captured D decodeJpegRaw a e.cam)).1 = false) (n : Nat) :
    (motionTurns D decodeJpegRaw ppm (a + 1 + n) e).1 = false ∧
      (motionTurns D decodeJpegRaw ppm (a + 1 + n) e).2.cam =
        (retryNext D decodeJpegRaw retries (motionTurns D decodeJpegRaw ppm a e).2.cam).2 := by
  obtain ⟨hiff, hlike⟩ := motionTurns_arrive D decodeJpegRaw ppm a e
  induction n with
  | zero =>
    obtain ⟨hret, -⟩ := alike_retryNext D decodeJpegRaw hidden_ref retries _ _ (hlike harrive)
    rw [hstop] at hret
    rw [Nat.add_zero, motionTurns, bind_apply, if_pos (hiff.mpr harrive), motionTurn_eq, ← hret,
      if_neg Bool.false_ne_true]
    exact ⟨rfl, rfl⟩
  | succ n ih =>
    rw [← Nat.add_assoc, motionTurns, bind_apply, ih.1, if_neg Bool.false_ne_true]
    exact ⟨rfl, ih.2⟩

/-- After a capture `ref` holds the picture of the last frame that arrived, or
what it held before where none did. -/
theorem capture_ref (e : Eye δ) {i : Nat} (hi : i < pixelSize ppm *
    (e.cam.tsk.imgs.height * e.cam.tsk.imgs.width)) :
    (motionCapture D decodeJpegRaw ppm e).2.cam.mem.byte (refImg + i) =
      if arrivals D decodeJpegRaw 8 e.cam = 0 then e.cam.mem.byte (refImg + i)
      else picture ppm (captured D decodeJpegRaw (arrivals D decodeJpegRaw 8 e.cam) e.cam) i := by
  obtain ⟨harrive, hstop⟩ := @arrivals_spec _ D decodeJpegRaw 8 e.cam
  rw [motionCapture_state]
  generalize arrivals D decodeJpegRaw 8 e.cam = a at *
  have hlast : (motionTurns D decodeJpegRaw ppm 8 e).2.cam.mem.byte (refImg + i) =
      (motionTurns D decodeJpegRaw ppm a e).2.cam.mem.byte (refImg + i) := by
    rcases hstop with rfl | ⟨hlt, hstop⟩
    · rfl
    · have hend := (@motionTurns_stop _ D decodeJpegRaw ppm a e harrive hstop (8 - (a + 1))).2
      rw [Nat.add_sub_cancel' hlt] at hend
      rw [hend]
      exact (retryNext_leaves D decodeJpegRaw 4 _).1 (refImg + i) rfl
  rw [hlast]
  cases a with
  | zero => rfl
  | succ a =>
    obtain ⟨c', hlike, hfinal⟩ := motionTurns_converted ppm harrive
    obtain ⟨hsize, hpicture⟩ := picture_like ppm (by decide) hlike
    rw [if_neg (Nat.succ_ne_zero a), hfinal, hpicture]
    refine convertInto_byte (by decide) c' ?_
    rw [← hsize, pictureSize_captured ppm harrive]
    exact hi

/-! ## Over a run -/

variable (D decodeJpegRaw) in
/-- The grey picture of the frame that arrived last, over the turns to come. -/
def lastPicture (runMode : BitVec 32) : (Nat → UInt8) → World δ → List Turn → Nat → UInt8
  | shown, _, [] => shown
  | shown, s, t :: ts =>
    let n := arrivals D decodeJpegRaw 8 s.eye.cam
    lastPicture runMode
      (if t.faceProcessing ∨ n = 0 then shown
        else picture paletteGrey (captured D decodeJpegRaw n s.eye.cam))
      (loopTurn D decodeJpegRaw runMode s t) ts

section Run
variable {runMode : BitVec 32} (hmode : ¬ runMode &&& configModeCap ≠ 0)
include hmode

theorem loopTurn_ref (s : World δ) (t : Turn) {i : Nat}
    (hi : i < s.eye.cam.tsk.imgs.width * s.eye.cam.tsk.imgs.height) :
    (loopTurn D decodeJpegRaw runMode s t).eye.cam.mem.byte (refImg + i) =
      if t.faceProcessing ∨ arrivals D decodeJpegRaw 8 s.eye.cam = 0 then
        s.eye.cam.mem.byte (refImg + i)
      else picture paletteGrey
        (captured D decodeJpegRaw (arrivals D decodeJpegRaw 8 s.eye.cam) s.eye.cam) i := by
  by_cases hface : t.faceProcessing = true
  · rw [loopTurn_waits D decodeJpegRaw runMode s hface, if_pos (.inl hface)]
    rfl
  · rw [loopTurn_looks D decodeJpegRaw runMode s hface hmode]
    have hsize : i < pixelSize paletteGrey *
        (s.eye.cam.tsk.imgs.height * s.eye.cam.tsk.imgs.width) := by
      rw [pixelSize, if_pos rfl, Nat.one_mul, Nat.mul_comm]
      exact hi
    have heye : (counted s).eye = s.eye := rfl
    simp only [hface, Bool.false_eq_true, false_or]
    rw [motionFaceDetection_eye, capture_eye, heye, capture_ref s.eye hsize]

theorem run_ref (ts : List Turn) (s : World δ) {shown : Nat → UInt8} {i : Nat}
    (hi : i < s.eye.cam.tsk.imgs.width * s.eye.cam.tsk.imgs.height)
    (hshown : s.eye.cam.mem.byte (refImg + i) = shown i) :
    (run (loopTurn D decodeJpegRaw runMode) s ts).eye.cam.mem.byte (refImg + i) =
      lastPicture D decodeJpegRaw runMode shown s ts i := by
  induction ts generalizing s shown with
  | nil => exact hshown
  | cons t ts ih =>
    have htsk := (@loopTurn_kept _ D decodeJpegRaw runMode s t).2
    refine ih (loopTurn D decodeJpegRaw runMode s t) (by rw [htsk]; exact hi) ?_
    rw [loopTurn_ref hmode s t hi]
    split
    · exact hshown
    · rfl

end Run

end Looked

/-- **What is looked at for faces is the grey picture of the frame that arrived
last in the whole run**, the same once more where all captures of a turn failed,
and what `ref` held at the start before the first frame. -/
theorem faces_last_picture {δ : Type} (D : Driver δ) (decodeJpegRaw : DecodeJpegRaw)
    {runMode : BitVec 32} (hmode : ¬ runMode &&& configModeCap ≠ 0) (s : World δ) (ts : List Turn)
    (t : Turn) :
    let imgs := s.eye.cam.tsk.imgs
    let shown := lastPicture D decodeJpegRaw runMode (fun i => s.eye.cam.mem.byte (refImg + i)) s
      (ts ++ [t])
    (run (loopTurn D decodeJpegRaw runMode) s (ts ++ [t])).handed =
      (if t.faceProcessing then [] else [(List.range (imgs.width * imgs.height)).map shown]) ++
        (run (loopTurn D decodeJpegRaw runMode) s ts).handed := by
  intro imgs shown
  have hshown := fun i hi => @run_ref _ D decodeJpegRaw runMode hmode (ts ++ [t]) s
    (fun i => s.eye.cam.mem.byte (refImg + i)) i hi rfl
  have htsk := (@run_kept _ D decodeJpegRaw runMode s ts).2
  have hstep : run (loopTurn D decodeJpegRaw runMode) s (ts ++ [t]) =
      loopTurn D decodeJpegRaw runMode (run (loopTurn D decodeJpegRaw runMode) s ts) t := List.foldl_append
  rw [hstep] at hshown ⊢
  generalize run (loopTurn D decodeJpegRaw runMode) s ts = s₁ at *
  by_cases hface : t.faceProcessing = true
  · rw [loopTurn_waits D decodeJpegRaw runMode s₁ hface, if_pos hface]
    rfl
  · rw [loopTurn_looks D decodeJpegRaw runMode s₁ hface hmode] at hshown ⊢
    have hend := @motionTurns_end _ D decodeJpegRaw paletteGrey 7 s₁.eye
    rw [← motionCapture_state, htsk] at hend
    obtain ⟨hconv, hw, hh⟩ := hend
    have heye : (capture D decodeJpegRaw paletteGrey (counted s₁)).eye =
        (motionCapture D decodeJpegRaw paletteGrey s₁.eye).2 := capture_eye paletteGrey (counted s₁)
    have hhanded : (capture D decodeJpegRaw paletteGrey (counted s₁)).handed = s₁.handed := rfl
    rw [motionFaceDetection_eye] at hshown
    generalize capture D decodeJpegRaw paletteGrey (counted s₁) = s' at *
    rw [← heye] at hconv hw hh
    rw [if_neg hface, List.singleton_append, motionFaceDetection, bytesAt, hconv, hw, hh, hhanded]
    exact congrArg (· :: s₁.handed) (List.map_congr_left fun i hi => hshown i (List.mem_range.mp hi))

theorem faces_last_picture_white :
    (run (loopTurn (camera white) undecoded 1) saving [⟨false, .failed⟩]).handed =
      [(List.range 4).map (lastPicture (camera white) undecoded 1
        (fun i => saving.eye.cam.mem.byte (refImg + i)) saving [⟨false, .failed⟩])] :=
  faces_last_picture (camera white) undecoded (by decide) saving [] ⟨false, .failed⟩

end SmartPrince.Eyes.MotionLoopSoundness

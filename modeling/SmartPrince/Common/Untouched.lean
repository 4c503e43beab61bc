import SmartPrince.Common.RotateSoundness
import SmartPrince.Common.VideoSpec

/-! # What the capture path leaves alone

A converter stores through the cursors it was started with and those it derives
from them, so that an object none of them points to keeps its bytes, whatever
the dimensions are. From the converters this goes up to `video_v4l2_next`. -/
namespace SmartPrince.Common.Untouched
open SmartPrince.Lib.Loop SmartPrince.Lib.Memory SmartPrince.Lib.Word SmartPrince.Lib.Program
open SmartPrince.Common.CameraState SmartPrince.Common.VideoConv SmartPrince.Common.Rotate
open SmartPrince.Common.RotateSoundness

/-! ## The converters -/

section Converters
variable {ι : Type} [DecidableEq ι] {b : ι} {map : Ptr ι} (hmap : map.base ≠ b) (src : Ptr ι)
  (w h : Nat)
include hmap

theorem convYuv422to420p_leaves (m : Mem ι) : Leaves b m (convYuv422to420p map src w h m) := by
  have hluma : (loop (w * h) yuv422Luma ((src, map), m)).1.2.base ≠ b ∧
      Leaves b m (loop (w * h) yuv422Luma ((src, map), m)).2 :=
    loop_leaves (fun c : Ptr ι × Ptr ι => c.2.base ≠ b) hmap
      (fun _ c m hc => ⟨hc, copy_leaves hc c.1 m⟩) m
  have hrow : ∀ (j : Nat) (c : Yuv422Cursor ι) (m : Mem ι), c.dest.base ≠ b ∧ c.dest2.base ≠ b →
      (((yuv422ChromaRow w j (c, m)).1.dest.base ≠ b ∧
        (yuv422ChromaRow w j (c, m)).1.dest2.base ≠ b) ∧
      Leaves b m (yuv422ChromaRow w j (c, m)).2) := fun j c m hc =>
    loop_leaves (fun c : Yuv422Cursor ι => c.dest.base ≠ b ∧ c.dest2.base ≠ b) hc
      (fun _ c m hc => ⟨hc, (store_leaves hc.1 _ _).trans (store_leaves hc.2 _ _)⟩) m
  exact hluma.2.trans (loop_leaves _ ⟨hmap, hmap⟩ hrow _).2

theorem convUyvyto420p_leaves (m : Mem ι) : Leaves b m (convUyvyto420p map src w h m) := by
  let P := fun c : UyvyCursor ι => c.pY.base ≠ b ∧ c.pU.base ≠ b ∧ c.pV.base ≠ b
  have hpair : ∀ ix j (c : UyvyCursor ι) (m : Mem ι), P c →
      P (uyvyPair (w * 2) ix j (c, m)).1 ∧ Leaves b m (uyvyPair (w * 2) ix j (c, m)).2 := by
    rintro ix j c m ⟨hy, hu, hv⟩
    simp only [uyvyPair, uyvyLuma]
    split_ifs
    · refine ⟨⟨hy, hu, hv⟩, ?_⟩
      exact (store_leaves hu _ _).trans ((copy_leaves hy _ _).trans
        ((store_leaves hv _ _).trans (copy_leaves (by exact hy) _ _)))
    · exact ⟨⟨hy, hu, hv⟩, (copy_leaves hy _ _).trans (copy_leaves (by exact hy) _ _)⟩
  refine (loop_leaves P ⟨hmap, hmap, hmap⟩ (fun ix c m hc => ?_) m).2
  exact loop_leaves P hc (hpair ix) m

theorem convRgb24toyuv420p_leaves (m : Mem ι) : Leaves b m (convRgb24toyuv420p map src w h m) := by
  let P := fun c : RgbCursor ι => c.y.base ≠ b ∧ c.u.base ≠ b ∧ c.v.base ≠ b
  have hpixel : ∀ (c : RgbCursor ι) (m : Mem ι), P c →
      P (rgbPixel (c, m)).1 ∧ Leaves b m (rgbPixel (c, m)).2 := fun c m hc =>
    ⟨hc, (store_leaves hc.1 _ _).trans ((store_leaves hc.2.1 _ _).trans (store_leaves hc.2.2 _ _))⟩
  have hpair : ∀ (j : Nat) (c : RgbCursor ι) (m : Mem ι), P c →
      P (rgbPair j (c, m)).1 ∧ Leaves b m (rgbPair j (c, m)).2 := fun j c m hc => by
    obtain ⟨h1, hm1⟩ := hpixel c m hc
    obtain ⟨h2, hm2⟩ := hpixel _ (rgbPixel (c, m)).2 h1
    exact ⟨h2, hm1.trans hm2⟩
  have hrow : ∀ (j : Nat) (c : RgbCursor ι) (m : Mem ι), P c →
      P (rgbRow w j (c, m)).1 ∧ Leaves b m (rgbRow w j (c, m)).2 := fun j c m hc => by
    obtain ⟨h1, hm1⟩ := loop_leaves P (k := (w + 1) / 2) hc hpair m
    simp only [rgbRow]
    split_ifs
    · exact ⟨h1, hm1⟩
    · exact ⟨h1, hm1⟩
  exact ((memset_leaves (by exact hmap) 0 _ m).trans (memset_leaves (by exact hmap) 0 _ _)).trans
    (loop_leaves P ⟨hmap, hmap, hmap⟩ hrow _).2

theorem convYuv420p_leaves (out : Rgb → List UInt8) (m : Mem ι) :
    Leaves b m (convYuv420p out src map w h m) := by
  let P := fun c : Yuv420Cursor ι => c.rgb.base ≠ b
  have hpixel : ∀ (x : Nat) (c : Yuv420Cursor ι) (m : Mem ι), P c →
      P (yuv420Pixel out x (c, m)).1 ∧ Leaves b m (yuv420Pixel out x (c, m)).2 := fun x c m hc => by
    simp only [yuv420Pixel]
    split_ifs
    · exact ⟨hc, put_leaves hc _ _⟩
    · exact ⟨hc, put_leaves hc _ _⟩
  have hrow : ∀ (y : Nat) (c : Yuv420Cursor ι) (m : Mem ι), P c →
      P (yuv420Row out w y (c, m)).1 ∧ Leaves b m (yuv420Row out w y (c, m)).2 := fun y c m hc => by
    obtain ⟨h1, hm1⟩ := loop_leaves P (k := w) hc hpixel m
    simp only [yuv420Row]
    split_ifs
    · exact ⟨h1, hm1⟩
    · exact ⟨h1, hm1⟩
  exact (loop_leaves P hmap hrow m).2

theorem scanMean_leaves (sites : List (Ptr ι)) (m : Mem ι) : Leaves b m (scanMean map sites m) := by
  refine Leaves.trans (fun q _ => ?_) (store_leaves hmap (m.sum sites).2 _)
  rw [Mem.sum_byte]

theorem bayer2rgb24_leaves (m : Mem ι) : Leaves b m (bayer2rgb24 map src w h m) := by
  refine (loop_leaves (fun c : Ptr ι × Ptr ι => c.2.base ≠ b) hmap (fun i c m hc => ⟨hc, ?_⟩) m).2
  exact (scanMean_leaves hc _ m).trans ((scanMean_leaves (by exact hc) _ _).trans
    (scanMean_leaves (by exact hc) _ _))

theorem sonixDecompress_leaves (m : Mem ι) : Leaves b m (sonixDecompress map src w h m) := by
  let P := fun c : SonixCursor ι => c.outp.base ≠ b
  have hraw : ∀ (k : Nat) (c : SonixCursor ι) (m : Mem ι), P c →
      P (sonixRaw src k (c, m)).1 ∧ Leaves b m (sonixRaw src k (c, m)).2 := fun _ c m hc =>
    ⟨hc, store_leaves hc _ _⟩
  have hpixel : ∀ (row col : Nat) (c : SonixCursor ι) (m : Mem ι), P c →
      P (sonixPixel src w row col (c, m)).1 ∧ Leaves b m (sonixPixel src w row col (c, m)).2 := by
    intro row col c m hc
    simp only [sonixPixel]
    split_ifs
    all_goals exact ⟨hc, store_leaves hc _ _⟩
  have hrow : ∀ (row : Nat) (c : SonixCursor ι) (m : Mem ι), P c →
      P (sonixRow src w row (c, m)).1 ∧ Leaves b m (sonixRow src w row (c, m)).2 := by
    intro row c m hc
    obtain ⟨h1, hm1⟩ := loop_leaves P (k := if row < 2 then 2 else 0) hc hraw m
    obtain ⟨h2, hm2⟩ := loop_leaves P (k := w - if row < 2 then 2 else 0) h1
      (fun k => hpixel row ((if row < 2 then 2 else 0) + k))
      (loop (if row < 2 then 2 else 0) (sonixRaw src) (c, m)).2
    exact ⟨h2, hm1.trans hm2⟩
  exact (loop_leaves P hmap hrow m).2

omit [DecidableEq ι] hmap in
theorem decodeInto_leaves {p : Ptr ι} [DecidableEq ι] (hp : p.base ≠ b) (raw : Nat → Option UInt8)
    (m : Mem ι) : Leaves b m (decodeInto p raw m) := by
  rintro q rfl
  exact if_neg fun hq => hp hq.1.symm

theorem mjpegtoyuv420p_leaves (dec : DecodeJpegRaw) {yuv : Fin 3 → Ptr ι}
    (hyuv : ∀ k, (yuv k).base ≠ b) (size : Nat) (m : Mem ι) :
    Leaves b m (mjpegtoyuv420p dec yuv map src w h size m).2 := by
  simp only [mjpegtoyuv420p]
  refine Leaves.trans ?_ (memcpy_leaves (by exact hmap) _ _ _)
  refine Leaves.trans ?_ (memcpy_leaves (by exact hmap) _ _ _)
  refine Leaves.trans ?_ (memcpy_leaves hmap _ _ _)
  refine Leaves.trans ?_ (memset_leaves (by exact hmap) 0 _ _)
  refine Leaves.trans ?_ (memset_leaves (by exact hmap) 0 _ _)
  refine Leaves.trans ?_ (memset_leaves hmap 0 _ _)
  refine Leaves.trans ?_ (decodeInto_leaves (hyuv 2) _ _)
  exact (decodeInto_leaves (hyuv 0) _ m).trans (decodeInto_leaves (hyuv 1) _ _)

end Converters

/-! ## The rotation -/

section Rotation
variable {b : Buf} {map : Ptr Buf} (hmap : map.base ≠ b) (htemp : Buf.tempBuf ≠ b)
include hmap

omit hmap in
theorem storeWord_leaves {p : Ptr Buf} (hp : p.base ≠ b) (m : Mem Buf) (w : UInt32) :
    Leaves b m (storeWord m p w) := put_leaves hp _ m

omit hmap in
theorem reverseQuads_leaves {nsrc ndst : Ptr Buf} (hs : nsrc.base ≠ b) (hd : ndst.base ≠ b)
    (m : Mem Buf) : Leaves b m (reverseQuads nsrc ndst m) := by
  fun_induction reverseQuads nsrc ndst m with
  | case1 nsrc ndst m hlt last m1 hl tmp first m2 hf m3 m4 ih =>
    have h1 : m1.byte = m.byte := by rw [show m1 = (loadWord m ndst).2 by rw [hl]]; rfl
    have h2 : m2.byte = m1.byte := by rw [show m2 = (loadWord m1 nsrc).2 by rw [hf]]; rfl
    have hloads : Leaves b m m2 := fun q _ => by rw [h2, h1]
    exact (hloads.trans (storeWord_leaves hd m2 _)).trans
      ((storeWord_leaves hs m3 _).trans (ih hs hd))
  | case2 => exact .refl _

theorem reverseInplaceQuad_leaves (size : Nat) (m : Mem Buf) :
    Leaves b m (reverseInplaceQuad map size m) := by
  rw [reverseInplaceQuad]
  exact reverseQuads_leaves hmap (by exact hmap) m

include htemp

theorem rotateQuarter_leaves {turn : Ptr Buf → Ptr Buf → Nat → Nat → Nat → Mem Buf → Mem Buf}
    (hturn : ∀ src dst size W H m, dst.base ≠ b → Leaves b m (turn src dst size W H m))
    (cnt : Context) (m : Mem Buf) : Leaves b m (rotateQuarter turn cnt map m) := by
  simp only [rotateQuarter]
  split
  · refine Leaves.trans ?_ (memcpy_leaves hmap _ _ _)
    refine Leaves.trans ?_ (hturn _ _ _ _ _ _ (by exact htemp))
    refine Leaves.trans ?_ (hturn _ _ _ _ _ _ (by exact htemp))
    exact hturn _ _ _ _ _ _ htemp
  · refine Leaves.trans ?_ (memcpy_leaves hmap _ _ _)
    exact hturn _ _ _ _ _ _ htemp

theorem rotateMap_leaves (cnt : Context) (m : Mem Buf) : Leaves b m (rotateMap cnt map m).2 := by
  simp only [rotateMap]
  split_ifs
  · refine rotateQuarter_leaves hmap htemp (fun src dst size W H m hd => ?_) cnt m
    rw [rot90cw_loop]
    exact turns_leaves (fun j m => copy_leaves (by exact hd) _ m) _ m
  · refine Leaves.trans ?_ (reverseInplaceQuad_leaves (by exact hmap) _ _)
    exact (reverseInplaceQuad_leaves hmap _ m).trans (reverseInplaceQuad_leaves (by exact hmap) _ _)
  · exact reverseInplaceQuad_leaves hmap _ m
  · refine rotateQuarter_leaves hmap htemp (fun src dst size W H m hd => ?_) cnt m
    rw [rot90ccw_loop]
    exact turns_leaves (fun j m => copy_leaves (by exact hd) _ m) _ m
  · exact .refl m

end Rotation

/-! ## A call of the capture path -/

section Capture
open SmartPrince.Common.V4l2 SmartPrince.Common.Video SmartPrince.Common.VideoSpec

/-- An object that is none of those the capture path works on. -/
structure Apart (b : Buf) (map : Ptr Buf) : Prop where
  map : map.base ≠ b
  commonBuffer : Buf.commonBuffer ≠ b
  tempBuf : Buf.tempBuf ≠ b
  frame : ∀ k, Buf.frame k ≠ b
  yuv : ∀ k, Buf.yuv k ≠ b

variable {b : Buf} {map : Ptr Buf} (ha : Apart b map) {δ : Type} (D : Driver δ)
  (decodeJpegRaw : DecodeJpegRaw)
include ha

theorem convert_leaves (fmt : PixFmt) (src : Ptr Buf) (w h bufsize len : Nat) (m : Mem Buf) :
    Leaves b m (convert decodeJpegRaw fmt map src w h bufsize len m).2 := by
  have hbayer : ∀ src m, Leaves b m (bayer2rgb24 commonBuffer src w h m) := fun src m =>
    bayer2rgb24_leaves (by exact ha.commonBuffer) src w h m
  cases fmt with
  | rgb24 => exact convRgb24toyuv420p_leaves ha.map src w h m
  | uyvy => exact convUyvyto420p_leaves ha.map src w h m
  | yuyv => exact convYuv422to420p_leaves ha.map src w h m
  | yuv422p => exact convYuv422to420p_leaves ha.map src w h m
  | yuv420 => exact memcpy_leaves ha.map src bufsize m
  | jpeg => exact mjpegtoyuv420p_leaves ha.map src w h decodeJpegRaw (by exact ha.yuv) len m
  | mjpeg => exact mjpegtoyuv420p_leaves ha.map src w h decodeJpegRaw (by exact ha.yuv) len m
  | sbggr8 => exact (hbayer src m).trans (convRgb24toyuv420p_leaves ha.map commonBuffer w h _)
  | sn9c10x =>
    exact (sonixDecompress_leaves ha.map src w h m).trans
      ((hbayer map _).trans (convRgb24toyuv420p_leaves ha.map commonBuffer w h _))
  | other _ => exact .refl m

/-- The relation between cameras whose memories agree on object `b`. -/
def LeavesCam (b : Buf) (c c' : Cam δ) : Prop := Leaves b c.mem c'.mem

omit ha in
theorem leavesCam_capture : Capture D (LeavesCam (δ := δ) b) where
  refl c := .refl c.mem
  trans h h' := Leaves.trans h h'
  asked _ _ c := .refl c.mem
  source c _ _ := .refl c.mem
  clock c := .refl c.mem
  device c _ _ _ := .refl c.mem
  sampled c _ := fun p _ => by rw [sampleSum_byte]

omit decodeJpegRaw in
theorem deliver_leaves (index : Nat) (frame : Nat → UInt8) (m : Mem Buf) :
    Leaves b m (deliver index frame m) := by
  rintro q rfl
  exact if_neg fun hq => ha.frame index hq.1.symm

theorem v4l2Next_leaves (w h : Nat) :
    Keeps (LeavesCam b) (v4l2Next D decodeJpegRaw map w h) := by
  intro c
  have hcalled := v4l2Next_called D decodeJpegRaw map w h c
  generalize (v4l2Next D decodeJpegRaw map w h c).1 = ret at hcalled
  generalize (v4l2Next D decodeJpegRaw map w h c).2 = c' at *
  cases hcalled with
  | fatal _ => exact Leaves.refl c.mem
  | refused _ _ _ => exact Leaves.refl c.mem
  | missed _ hq _ => exact fun p _ => congrFun (congrArg Mem.byte hq.keeps.2) p
  | @frame c₁ b' _ hq _ =>
    refine Leaves.trans ?_ (convert_leaves ha decodeJpegRaw _ _ w h _ _ _)
    have hdel := deliver_leaves ha b'.index b'.frame c₁.mem
    rw [hq.keeps.2] at hdel
    simp only [held, after_mem, cleared, hq.keeps.2]
    exact hdel

/-- **An object apart keeps its bytes across a capture.** -/
theorem videoV4l2Next_leaves (c : Cam δ) :
    Leaves b c.mem (videoV4l2Next D decodeJpegRaw map c).2.mem := by
  rw [videoV4l2Next_eq]
  dsimp only
  have hnext := v4l2Next_leaves ha D decodeJpegRaw c.tsk.imgs.width c.tsk.imgs.height
  have hset := keeps_v4l2SetInput hnext (leavesCam_capture D) c
  generalize (v4l2SetInput D decodeJpegRaw map c.tsk.imgs.width c.tsk.imgs.height c).2 = c₁ at *
  refine Leaves.trans (Leaves.trans hset (hnext c₁)) ?_
  rw [rotateCaptured_state]
  split
  · exact rotateMap_leaves ha.map ha.tempBuf _ _
  · exact .refl _

end Capture

end SmartPrince.Common.Untouched

import SmartPrince.Common.Yuv422Soundness
import SmartPrince.Common.Rgb24Soundness
import SmartPrince.Common.RotateSoundness
import SmartPrince.Common.VideoSpec

/-! # What a captured frame looks like

`video_v4l2_next` takes the dimensions of the images, which `rotate_init` has
swapped for a quarter turn, while `rotate_map` takes those of the capture. The
frame delivered is converted at the former and turned at the latter. -/
namespace SmartPrince.Common.CaptureSoundness
open SmartPrince.Lib.Program SmartPrince.Lib.Memory SmartPrince.Lib.Plane
open SmartPrince.Common.CameraState SmartPrince.Common.Yuv420p SmartPrince.Common.VideoConv
open SmartPrince.Common.Yuv422Soundness SmartPrince.Common.Rgb24Soundness
open SmartPrince.Common.Rotate SmartPrince.Common.RotateSoundness
open SmartPrince.Common.V4l2 SmartPrince.Common.Video SmartPrince.Common.VideoSpec

/-! ## The frame delivered -/

/-- The layouts that are converted pixel by pixel. -/
inductive Layout where
  | yuyv
  | uyvy
  | rgb24

def Layout.fmt : Layout → PixFmt
  | .yuyv => .yuyv
  | .uyvy => .uyvy
  | .rgb24 => .rgb24

/-- The planar frame of `w` by `h` pixels in a layout. -/
def Layout.frame (l : Layout) (w h : Nat) (src : Nat → UInt8) : Frame :=
  match l with
  | .yuyv => yuyvFrame w src
  | .uyvy => uyvyFrame w src
  | .rgb24 => rgbFrame w h src

/-- The bytes the driver wrote are those in the buffer's mapping. -/
theorem deliver_frame (k : Nat) (frame : Nat → UInt8) (m : Mem Buf) :
    (fun i : Nat => (deliver k frame m).byte ((⟨.frame k, 0⟩ : Ptr Buf) + i)) = frame := by
  funext i
  simp [deliver, Ptr.add_base, Ptr.add_off]

variable {δ : Type} {D : Driver δ} {decodeJpegRaw : DecodeJpegRaw}

section Success
variable {map : Ptr Buf} (hmap : ∀ k, map.base ≠ .frame k) {w h : Nat}
  (hw : w % 2 = 0) (hh : h % 2 = 0)
include hmap hw hh

theorem convert_byte (l : Layout) (k bufsize len : Nat) (m : Mem Buf) :
    (convert decodeJpegRaw l.fmt map ⟨.frame k, 0⟩ w h bufsize len m).1 = 0 ∧
    (convert decodeJpegRaw l.fmt map ⟨.frame k, 0⟩ w h bufsize len m).2.byte =
      putFrame map w h (l.frame w h fun i => m.byte ((⟨.frame k, 0⟩ : Ptr Buf) + i)) m.byte := by
  have hb : (⟨.frame k, 0⟩ : Ptr Buf).base ≠ map.base := (hmap k).symm
  cases l with
  | yuyv => exact ⟨rfl, (convYuv422to420p_writes hb hw hh m).byte⟩
  | uyvy => exact ⟨rfl, (convUyvyto420p_writes hb hw hh m).byte⟩
  | rgb24 => exact ⟨rfl, convRgb24_byte hb hw hh m⟩

/-- A call that succeeds converts the frame delivered. -/
theorem v4l2Next_success {l : Layout} {c c' : Cam δ} {ret : Int} (hf : c.s.fmt.pixelformat = l.fmt)
    (hc : Called D decodeJpegRaw map w h c ret c') (hret : ret = 0) :
    ∃ d b rest, answer D .dqbuf d = .ok b ∧ c'.trace = ⟨.dqbuf, d, .ok b⟩ :: rest ∧
      (getFrame map w h c'.mem.byte).Same w h (l.frame w h b.frame) := by
  obtain ⟨d, b, rest, k, bufsize, len, m, ha, ht, hmem⟩ := hc.success hret
  refine ⟨d, b, rest, ha, ht, ?_⟩
  rw [hmem, hf, (convert_byte hmap hw hh l _ _ _ _).2, deliver_frame]
  exact getFrame_putFrame

end Success

/-! ## The rotation after it -/

theorem rotated_nothing {deg : Int} (hd : deg ≤ 0) (w h : Nat) (F : Frame) :
    rotated deg w h F = F := by
  rw [rotated, if_neg (by omega), if_neg (by omega), if_neg (by omega)]

/-- A context that `rotate_init` set up for images of `w` by `h` pixels. -/
structure SetUp (cnt tsk : Context) (w h : Nat) : Prop where
  type : cnt.imgs.type = paletteYuv420p
  width : cnt.imgs.width = w
  height : cnt.imgs.height = h
  init : tsk = rotateInit cnt

theorem SetUp.degrees_cases {cnt tsk : Context} {w h : Nat} (hs : SetUp cnt tsk w h) :
    tsk.rotateData.degrees ≤ 0 ∨ tsk.rotateData.degrees = 90 ∨ tsk.rotateData.degrees = 180 ∨
      tsk.rotateData.degrees = 270 := by
  rw [hs.init, (rotateInit_prepared hs.type).degrees]
  exact rotateDegrees_cases cnt

/-- The dimensions of the images are those of the capture, swapped for a quarter turn. -/
theorem SetUp.dimensions {cnt tsk : Context} {w h : Nat} (hs : SetUp cnt tsk w h) :
    if tsk.rotateData.degrees = 90 ∨ tsk.rotateData.degrees = 270 then
      tsk.imgs.width = h ∧ tsk.imgs.height = w
    else tsk.imgs.width = w ∧ tsk.imgs.height = h := by
  have himgs := (rotateInit_prepared hs.type).imgs
  rw [← hs.init] at himgs
  split
  · next hq => rw [if_pos hq] at himgs; rw [himgs]; exact ⟨hs.height, hs.width⟩
  · next hq => rw [if_neg hq] at himgs; rw [himgs]; exact ⟨hs.width, hs.height⟩

section Rotated
variable {map : Ptr Buf} (hb : map.base ≠ .tempBuf) {w h : Nat} (hw : w % 2 = 0) (hh : h % 2 = 0)
include hb hw hh

/-- The frame that is there is turned, whatever happened before. -/
theorem rotateCaptured_frame {cnt : Context} {c : Cam δ} (hs : SetUp cnt c.tsk w h) :
    (getFrame map w h (rotateCaptured map c).2.mem.byte).Same w h
      (rotated c.tsk.rotateData.degrees w h (getFrame map w h c.mem.byte)) := by
  rw [rotateCaptured_state]
  split
  · next hd =>
    have hprep := rotateInit_prepared hs.type
    rw [← hs.init] at hprep
    have htype : c.tsk.imgs.type = paletteYuv420p := by
      rw [hprep.imgs]; split <;> exact hs.type
    have hbytes := (rotateMap_byte hb hw hh htype (hprep.capWidth.trans hs.width)
      (hprep.capHeight.trans hs.height) (by have := hs.degrees_cases; omega) c.mem).2
    refine Frame.Same.trans (getFrame_same.mpr fun i _ => ?_)
      (getFrame_putFrame (f := c.mem.byte))
    exact hbytes (map + i) hb
  · next hd =>
    rw [rotated_nothing (by omega)]
    exact ⟨fun _ _ => rfl, fun _ _ => rfl, fun _ _ => rfl⟩

/-- **What a successful capture leaves**: the frame delivered, converted at the
dimensions of the images and turned at those of the capture. -/
theorem videoV4l2Next_success (hmap : ∀ k, map.base ≠ .frame k) {l : Layout} {cnt : Context}
    {c : Cam δ} (hs : SetUp cnt c.tsk w h) (hf : c.s.fmt.pixelformat = l.fmt)
    (hret : (videoV4l2Next D decodeJpegRaw map c).1 = 0) :
    ∃ d b rest, answer D .dqbuf d = .ok b ∧
      (videoV4l2Next D decodeJpegRaw map c).2.trace = ⟨.dqbuf, d, .ok b⟩ :: rest ∧
      (getFrame map w h (videoV4l2Next D decodeJpegRaw map c).2.mem.byte).Same w h
        (rotated c.tsk.rotateData.degrees w h
          (l.frame c.tsk.imgs.width c.tsk.imgs.height b.frame)) := by
  rw [videoV4l2Next_eq] at hret ⊢
  dsimp only at hret ⊢
  have hset : Steady D c
      (v4l2SetInput D decodeJpegRaw map c.tsk.imgs.width c.tsk.imgs.height c).2 :=
    v4l2SetInput_steady _ _ _ _
  generalize (v4l2SetInput D decodeJpegRaw map c.tsk.imgs.width c.tsk.imgs.height c).2 = c₁ at *
  have hcalled := v4l2Next_called D decodeJpegRaw map c.tsk.imgs.width c.tsk.imgs.height c₁
  generalize v4l2Next D decodeJpegRaw map c.tsk.imgs.width c.tsk.imgs.height c₁ = r at *
  have hsteady := steady_frame.trans hset hcalled.steady
  have hdim := hs.dimensions
  have heven : c.tsk.imgs.width % 2 = 0 ∧ c.tsk.imgs.height % 2 = 0 := by
    split at hdim <;> omega
  obtain ⟨d, b, rest, ha, ht, hframe⟩ := v4l2Next_success hmap heven.1 heven.2
    (by rw [hset.fmt]; exact hf) hcalled hret
  refine ⟨d, b, rest, ha, ?_, ?_⟩
  · rw [rotateCaptured_state]; split <;> exact ht
  · have hs' : SetUp cnt r.2.tsk w h := hsteady.tsk ▸ hs
    have hturn := rotateCaptured_frame hb hw hh hs'
    rw [hsteady.tsk] at hturn
    refine hturn.trans (rotated_congr hw hh ?_)
    -- the block of the images' dimensions is that of the capture's
    split at hdim
    · rw [hdim.1, hdim.2] at hframe ⊢
      rw [getFrame_swap] at hframe
      exact hframe.swap
    · rw [hdim.1, hdim.2] at hframe ⊢
      exact hframe

end Rotated

/-! ## The rotation of a picture -/

/-- A frame turned clockwise. -/
def turnedBy (deg : Int) (w h : Nat) (F : Frame) : Frame :=
  if deg = 90 then turned rot90 w h F
  else if deg = 180 then turned rot180 w h F
  else if deg = 270 then turned rot270 w h F
  else F

/-- In whole blocks of 16 by 16 pixels the half turn mirrors every byte. -/
theorem rotated_turnedBy (deg : Int) {w h : Nat} (hw : 16 ∣ w) (hh : 16 ∣ h) (F : Frame) :
    (rotated deg w h F).Same w h (turnedBy deg w h F) := by
  obtain ⟨h4, _, _⟩ := frame_size (w := w) (h := h) (by omega) (by omega)
  unfold rotated turnedBy
  split
  · exact ⟨fun _ _ => rfl, fun _ _ => rfl, fun _ _ => rfl⟩
  · split
    · obtain ⟨n, hn⟩ := Nat.mul_dvd_mul hw hh
      refine ⟨fun k _ => ?_, fun k _ => ?_, fun k _ => ?_⟩
      · show F.y (halfTurned (w * h) k) = F.y (w * h - 1 - k)
        rw [halfTurned_eq (by omega)]
      · show F.u (halfTurned (w * h / 4) k) = F.u (w / 2 * (h / 2) - 1 - k)
        rw [h4, halfTurned_eq (by omega)]
      · show F.v (halfTurned (w * h / 4) k) = F.v (w / 2 * (h / 2) - 1 - k)
        rw [h4, halfTurned_eq (by omega)]
    · split <;> exact ⟨fun _ _ => rfl, fun _ _ => rfl, fun _ _ => rfl⟩

/-! ## A frame that tells the dimensions apart -/

section Apart
variable {w h : Nat} (hwh : w ≠ h) (hw : 0 < w)
include hwh hw

theorem yuyvFrame_apart : ∃ src, (yuyvFrame h src).u 0 ≠ (yuyvFrame w src).u 0 := by
  refine ⟨fun i => if i = 1 + w * 2 then 255 else 0, ?_⟩
  have h1 : ¬ 1 = 1 + w * 2 := by omega
  have h2 : ¬ 1 + h * 2 = 1 + w * 2 := by omega
  simp only [yuyvFrame, packedFrame, cellOff, Nat.zero_div, Nat.zero_mod, Nat.mul_zero, Nat.zero_add,
    if_neg h1, if_neg h2, if_true]
  decide

theorem uyvyFrame_apart : ∃ src, (uyvyFrame h src).u 0 ≠ (uyvyFrame w src).u 0 := by
  refine ⟨fun i => if i = w * 2 then 255 else 0, ?_⟩
  have h1 : ¬ 0 = w * 2 := by omega
  have h2 : ¬ h * 2 = w * 2 := by omega
  simp only [uyvyFrame, packedFrame, cellOff, Nat.zero_div, Nat.zero_mod, Nat.mul_zero, Nat.zero_add,
    if_neg h1, if_neg h2, if_true]
  decide

end Apart

/-- A black frame with one blue pixel, the first of the second row. -/
def bluePixel (w i : Nat) : UInt8 := if i = 3 * w then 255 else 0

theorem uOf_bluePixel (w k : Nat) :
    atPixel uOf (bluePixel w) k = if k = w then 59 else 32 := by
  have h1 : ¬ 3 * k + 1 = 3 * w := by omega
  have h2 : ¬ 3 * k + 2 = 3 * w := by omega
  by_cases hk : k = w
  · subst hk
    simp only [atPixel, bluePixel, if_neg h1, if_neg h2, if_true]
    decide
  · have h3 : ¬ 3 * k = 3 * w := by omega
    simp only [atPixel, bluePixel, if_neg h1, if_neg h2, if_neg h3, if_neg hk]
    decide

/-- Its share of a cell's U sum is the blue pixel's alone, modulo 32. -/
theorem cellSum_bluePixel (w d n c : Nat) :
    ∃ q, cellSum (atPixel uOf (bluePixel w)) d n c =
      32 * q + if w < n ∧ cellAt d (w % d) (w / d) = c then 27 else 0 := by
  induction n with
  | zero => exact ⟨0, by simp [cellSum]⟩
  | succ n ih =>
    obtain ⟨q, hq⟩ := ih
    rw [cellSum, Finset.sum_range_succ, ← cellSum, hq, uOf_bluePixel]
    by_cases hc : cellAt d (n % d) (n / d) = c
    · by_cases hn : n = w
      · subst hn
        exact ⟨q + 1, by simp [hc]; ring⟩
      · refine ⟨q + 1, ?_⟩
        have hlt : w < n + 1 ↔ w < n := by omega
        simp only [hc, hn, hlt, if_true, if_false]
        ring
    · refine ⟨q, ?_⟩
      by_cases hn : n = w
      · subst hn
        simp [hc]
      · have hlt : w < n + 1 ↔ w < n := by omega
        simp only [hc, hlt, if_false, add_zero]

/-- Pixel `w` is below the first in rows of `w`, and in another cell in rows of `h`. -/
theorem rgbFrame_apart {w h : Nat} (hwh : w ≠ h) (hw : 16 ∣ w) (hh : 16 ∣ h) (hpos : 0 < w)
    (hhpos : 0 < h) :
    (rgbFrame h w (bluePixel w)).u 0 ≠ (rgbFrame w h (bluePixel w)).u 0 := by
  obtain ⟨q₁, h₁⟩ := cellSum_bluePixel w h (h * w) 0
  obtain ⟨q₂, h₂⟩ := cellSum_bluePixel w w (w * h) 0
  have hlt : w < w * h := (Nat.lt_mul_iff_one_lt_right hpos).mpr (by omega)
  have hin : cellAt w (w % w) (w / w) = 0 := by
    simp [cellAt, Nat.mod_self, Nat.div_self hpos]
  have hout : cellAt h (w % h) (w / h) ≠ 0 := by
    intro h0
    obtain ⟨hrow, hcol⟩ := Nat.add_eq_zero_iff.mp h0
    have hmod : 16 ∣ w % h := (Nat.dvd_mod_iff hh).mpr hw
    have hdiv : w / h / 2 = 0 := (Nat.mul_eq_zero.mp hrow).resolve_right (by omega)
    have hsite := Nat.div_add_mod w h
    have hone : w / h = 0 ∨ w / h = 1 := by omega
    rcases hone with hone | hone <;> rw [hone] at hsite <;> omega
  rw [if_pos ⟨hlt, hin⟩] at h₂
  rw [if_neg fun hc => hout hc.2] at h₁
  simp only [rgbFrame, h₁, h₂]
  intro he
  have := congrArg UInt8.toNat he
  simp only [UInt8.ofInt, UInt8.toNat_ofNat'] at this
  omega

theorem Layout.apart (l : Layout) {w h : Nat} (hwh : w ≠ h) (hw : 16 ∣ w) (hh : 16 ∣ h)
    (hpos : 0 < w) (hhpos : 0 < h) :
    ∃ src, ¬ (l.frame h w src).Same w h (l.frame w h src) := by
  obtain ⟨n, hn⟩ := Nat.mul_dvd_mul hw hh
  have h0 : 0 < w * h / 4 := by
    have := Nat.mul_pos hpos hhpos
    omega
  have hu : ∃ src, (l.frame h w src).u 0 ≠ (l.frame w h src).u 0 := by
    cases l with
    | yuyv => exact yuyvFrame_apart hwh hpos
    | uyvy => exact uyvyFrame_apart hwh hpos
    | rgb24 => exact ⟨_, rgbFrame_apart hwh hw hh hpos hhpos⟩
  obtain ⟨src, hsrc⟩ := hu
  exact ⟨src, fun hs => hsrc (hs.u 0 h0)⟩

/-! ## Which dimensions -/

/-- The newest answer of the driver delivers `b`. -/
def Delivered (c : Cam δ) (b : Dequeued) : Prop := ∃ x rest, c.trace = x :: rest ∧ Delivers b x

theorem delivered_unique {c : Cam δ} {b b' : Dequeued} (h : Delivered c b) (h' : Delivered c b') :
    b = b' := by
  obtain ⟨x, rest, ht, d, rfl⟩ := h
  obtain ⟨x', rest', ht', d', rfl⟩ := h'
  rw [ht] at ht'
  cases ht'
  rfl

/-- Whatever the driver does, a capture that succeeds leaves the rotation of
the frame delivered, converted at the dimensions captured. -/
def Faithful (decodeJpegRaw : DecodeJpegRaw) (map : Ptr Buf) (deg : Int) (l : Layout) (w h : Nat) :
    Prop :=
  ∀ (δ : Type) (D : Driver δ) (cnt : Context) (c : Cam δ), cnt.conf.rotateDeg = deg →
    SetUp cnt c.tsk w h → c.s.fmt.pixelformat = l.fmt →
    (videoV4l2Next D decodeJpegRaw map c).1 = 0 →
    ∃ b, Delivered (videoV4l2Next D decodeJpegRaw map c).2 b ∧
      (getFrame map w h (videoV4l2Next D decodeJpegRaw map c).2.mem.byte).Same w h
        (turnedBy deg w h (l.frame w h b.frame))

def rightAngles : List Int := [0, 90, 180, 270]

theorem SetUp.degrees {cnt tsk : Context} {w h : Nat} (hs : SetUp cnt tsk w h)
    (hdeg : cnt.conf.rotateDeg ∈ rightAngles) : tsk.rotateData.degrees = cnt.conf.rotateDeg := by
  rw [hs.init, (rotateInit_prepared hs.type).degrees]
  simp only [rightAngles, List.mem_cons, List.not_mem_nil, or_false] at hdeg
  unfold rotateDegrees
  rcases hdeg with hd | hd | hd | hd <;> rw [hd] <;> rfl

section Dimensions
variable {map : Ptr Buf} (hb : map.base ≠ .tempBuf) (hmap : ∀ k, map.base ≠ .frame k)
  {deg : Int} (hdeg : deg ∈ rightAngles) (l : Layout) {w h : Nat} (hw : 16 ∣ w) (hh : 16 ∣ h)
include hb hmap hdeg hw hh

/-- The dimensions agree, or there is nothing to convert. -/
theorem faithful_of (hcond : deg = 0 ∨ deg = 180 ∨ w = h ∨ w * h = 0) :
    Faithful decodeJpegRaw map deg l w h := by
  intro δ D cnt c hcnt hs hf hret
  subst hcnt
  obtain ⟨d, b, rest, -, ht, hframe⟩ :=
    videoV4l2Next_success hb (by omega) (by omega) hmap hs hf hret
  refine ⟨b, ⟨_, rest, ht, d, rfl⟩, ?_⟩
  by_cases h0 : w * h = 0
  · exact ⟨fun k hk => by omega, fun k hk => by omega, fun k hk => by omega⟩
  have hdim := hs.dimensions
  rw [hs.degrees hdeg] at hframe hdim
  have hsame : c.tsk.imgs.width = w ∧ c.tsk.imgs.height = h := by
    split at hdim
    · next hq =>
      obtain hwh : w = h := by omega
      omega
    · exact hdim
  rw [hsame.1, hsame.2] at hframe
  exact hframe.trans (rotated_turnedBy _ hw hh _)

end Dimensions

/-- A context for images of `w` by `h` pixels turned by `deg` degrees. -/
def picturing (deg : Int) (w h : Nat) : Context :=
  { Context.zero with
    conf := { Context.zero.conf with rotateDeg := deg }
    imgs := { Context.zero.imgs with width := w, height := h, type := paletteYuv420p } }

/-- A camera set up for such captures. -/
def poised (drv : δ) (mem : Mem Buf) (deg : Int) (l : Layout) (w h : Nat) : Cam δ where
  tsk := rotateInit (picturing deg w h)
  viddev := { VideoDev.zero with v4lFmt := paletteYuv420p }
  s := { SrcV4l2.zero with fmt := ⟨w, h, l.fmt⟩, pframe := -1, reqCount := mmapBuffers }
  v4l2Private := true
  mem
  sigmask _ := false
  drv
  trace := []

theorem poised_setUp (drv : δ) (mem : Mem Buf) (deg : Int) (l : Layout) (w h : Nat) :
    SetUp (picturing deg w h) (poised drv mem deg l w h).tsk w h := ⟨rfl, rfl, rfl, rfl⟩

theorem convert_ret (l : Layout) (map src : Ptr Buf) (w h bufsize len : Nat) (m : Mem Buf) :
    (convert decodeJpegRaw l.fmt map src w h bufsize len m).1 = 0 := by
  cases l <;> rfl

/-- A camera that delivers its frame has every capture succeed. -/
theorem camera_succeeds (decodeJpegRaw : DecodeJpegRaw) (b : Dequeued) (map : Ptr Buf)
    {l : Layout} {c : Cam Unit} (hv : c.viddev.v4lFmt = paletteYuv420p)
    (hf : c.s.fmt.pixelformat = l.fmt) :
    (videoV4l2Next (camera b) decodeJpegRaw map c).1 = 0 := by
  rw [videoV4l2Next_eq]
  dsimp only
  have hset : Steady (camera b) c
      (v4l2SetInput (camera b) decodeJpegRaw map c.tsk.imgs.width c.tsk.imgs.height c).2 :=
    v4l2SetInput_steady _ _ _ _
  generalize (v4l2SetInput (camera b) decodeJpegRaw map c.tsk.imgs.width
    c.tsk.imgs.height c).2 = c₁ at *
  have hcalled := v4l2Next_called (camera b) decodeJpegRaw map c.tsk.imgs.width c.tsk.imgs.height c₁
  generalize v4l2Next (camera b) decodeJpegRaw map c.tsk.imgs.width c.tsk.imgs.height c₁ = r at *
  refine camera_success hcalled (hset.v4lFmt.trans hv) fun src bufsize len m => ?_
  rw [hset.fmt, hf]
  exact convert_ret l _ _ _ _ _ _ _

/-- The dimensions differ: a frame whose chroma depends on them tells. -/
theorem not_faithful {map : Ptr Buf} (hb : map.base ≠ .tempBuf) (hmap : ∀ k, map.base ≠ .frame k)
    {deg : Int} (hdeg : deg = 90 ∨ deg = 270) (l : Layout) {w h : Nat} (hw : 16 ∣ w) (hh : 16 ∣ h)
    (hpos : 0 < w) (hhpos : 0 < h) (hwh : w ≠ h) : ¬ Faithful decodeJpegRaw map deg l w h := by
  intro hall
  obtain ⟨src, hsrc⟩ := l.apart hwh hw hh hpos hhpos
  have hret := camera_succeeds decodeJpegRaw ⟨0, 0, ⟨0, 0⟩, src⟩ map
    (l := l) (c := poised () ⟨fun _ => 0, []⟩ deg l w h) rfl rfl
  have hs := poised_setUp () ⟨fun _ => 0, []⟩ deg l w h
  obtain ⟨b, hb₁, hclaim⟩ := hall _ _ _ _ rfl hs rfl hret
  obtain ⟨d, b', rest, ha, ht, hframe⟩ :=
    videoV4l2Next_success hb (by omega) (by omega) hmap hs rfl hret
  obtain rfl := delivered_unique hb₁ ⟨_, rest, ht, d, rfl⟩
  cases ha
  have hdegs : (poised () ⟨fun _ => 0, []⟩ deg l w h).tsk.rotateData.degrees = deg :=
    hs.degrees (show deg ∈ rightAngles by rcases hdeg with rfl | rfl <;> simp [rightAngles])
  have hdim := hs.dimensions
  rw [hdegs] at hframe hdim
  rw [if_pos hdeg] at hdim
  rw [hdim.1, hdim.2] at hframe
  have hboth := hframe.symm.trans (hclaim.trans (rotated_turnedBy _ hw hh _).symm)
  refine hsrc ?_
  rcases hdeg with rfl | rfl
  · exact turned_inj rot90_tells (by omega) (by omega) hboth
  · exact turned_inj rot270_tells (by omega) (by omega) hboth

/-- **A captured frame is the rotation of the frame delivered exactly where the
dimensions of the images are those of the capture**: no quarter turn, a square
picture or an empty one. -/
theorem capture_faithful_iff (decodeJpegRaw : DecodeJpegRaw) {map : Ptr Buf}
    (hb : map.base ≠ .tempBuf) (hmap : ∀ k, map.base ≠ .frame k) {deg : Int}
    (hdeg : deg ∈ rightAngles) (l : Layout) {w h : Nat} (hw : 16 ∣ w) (hh : 16 ∣ h) :
    Faithful decodeJpegRaw map deg l w h ↔ deg = 0 ∨ deg = 180 ∨ w = h ∨ w * h = 0 := by
  constructor
  · intro hall
    by_contra hcond
    simp only [rightAngles, List.mem_cons, List.not_mem_nil, or_false] at hdeg
    have hpos : 0 < w * h := by omega
    exact not_faithful hb hmap (by omega) l hw hh (Nat.pos_of_mul_pos_right hpos)
      (Nat.pos_of_mul_pos_left hpos) (by omega) hall
  · exact faithful_of hb hmap hdeg l hw hh

theorem capture_faithful_square :
    Faithful (fun _ _ _ _ => ⟨0, fun _ _ => none⟩) imageVirgin 90 .yuyv 16 16 ↔
      (90 : Int) = 0 ∨ (90 : Int) = 180 ∨ 16 = 16 ∨ 16 * 16 = 0 :=
  capture_faithful_iff _ (by decide) (by intro k; nofun) (by decide) .yuyv (by decide) (by decide)

/-- The YUYV capture of 32 by 16 pixels turned by 90 degrees. -/
theorem capture_wide_unfaithful :
    ¬ Faithful (fun _ _ _ _ => ⟨0, fun _ _ => none⟩) imageVirgin 90 .yuyv 32 16 :=
  not_faithful (by decide) (by intro k; nofun) (.inl rfl) .yuyv (by decide) (by decide)
    (by decide) (by decide) (by decide)

end SmartPrince.Common.CaptureSoundness

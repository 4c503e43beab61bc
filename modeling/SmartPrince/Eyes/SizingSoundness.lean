import SmartPrince.Common.StartSoundness
import SmartPrince.Common.FailedCapture
import SmartPrince.Eyes.Motion

/-! # Whether the buffers of the images are large enough

`_motion_init` allocates a frame for `image_virgin` and nothing for
`common_buffer`. Every conversion but that of the two Bayer formats stays in
the frame; these two go through `common_buffer`. The sampling of the picture
goes up to `motionsize`, which in colour is twice the frame. The sizes are
`int`s: of a picture for which they overflow less is allocated. -/
namespace SmartPrince.Eyes.SizingSoundness
open SmartPrince.Lib.Program SmartPrince.Lib.Loop SmartPrince.Lib.Memory SmartPrince.Lib.CInt
open SmartPrince.Common.CameraState SmartPrince.Common.Yuv420p SmartPrince.Common.VideoConv
open SmartPrince.Common.Yuv422Soundness SmartPrince.Common.Rgb24Soundness
open SmartPrince.Common.Rotate SmartPrince.Common.RotateSoundness
open SmartPrince.Common.V4l2 SmartPrince.Common.Video SmartPrince.Common.VideoSpec
open SmartPrince.Common.StartSoundness SmartPrince.Common.CaptureSoundness
open SmartPrince.Common.BufferQueue SmartPrince.Common.FailedCapture SmartPrince.Eyes.Motion

variable {δ : Type}

/-! ## What a conversion touches -/

/-- Not in one of the images' two buffers. -/
def Elsewhere (p : Ptr Buf) : Prop := p.base ≠ .imageVirgin ∧ p.base ≠ .commonBuffer

/-- The access is elsewhere, or within the frame at `image_virgin`. -/
def InFrame (size : Nat) (a : Access Buf) : Prop :=
  Elsewhere a.ptr ∨ Span imageVirgin size a.ptr

/-- Every access between two states of the memory is in the frame. -/
def Stays (size : Nat) (m m' : Mem Buf) : Prop := ∀ a ∈ m'.log, a ∈ m.log ∨ InFrame size a

section Accesses
variable {m m₁ m₂ : Mem Buf} {n size : Nat} {dst : Ptr Buf}

theorem stays_silent (h : m₁.log = m.log) : Stays size m m₁ := fun _ ha => .inl (h ▸ ha)

theorem Stays.trans (h₁ : Stays size m m₁) (h₂ : Stays size m₁ m₂) : Stays size m m₂ :=
  fun a ha => (h₂ a ha).elim (h₁ a) .inr

theorem InFrame.mono {a : Access Buf} (h : InFrame n a) (hle : n ≤ size) : InFrame size a := by
  rcases h with h | ⟨hb, hlo, hhi⟩
  · exact .inl h
  · exact .inr ⟨hb, hlo, by omega⟩

theorem Stays.mono (h : Stays n m m₁) (hle : n ≤ size) : Stays size m m₁ := fun a ha =>
  (h a ha).imp_right fun ha => ha.mono hle

theorem stays_writes {w h : Nat} {F : Frame} {reads : Ptr Buf → Prop}
    (hm : Writes imageVirgin w h F reads m (w * h) (w * h / 4) (w * h / 4) m₁)
    (hreads : ∀ q, reads q → Elsewhere q) : Stays (w * h + w * h / 4 + w * h / 4) m m₁ := by
  intro a ha
  cases a with
  | load q => exact (hm.loads q ha).imp id fun hq => .inl (hreads q hq)
  | store q =>
    by_cases hs : Span imageVirgin (w * h + w * h / 4 + w * h / 4) q
    · exact .inr (.inr hs)
    · have hcount := hm.stored_once q
      rw [once, if_neg hs] at hcount
      refine .inl (List.count_pos_iff.mp ?_)
      rw [← Nat.add_zero (m.log.count _), ← hcount]
      exact List.count_pos_iff.mpr ha

theorem stays_memcpy {src : Ptr Buf} (hs : Elsewhere src)
    (hd : ∀ k, k < n → Span imageVirgin size (dst + k)) : Stays size m (m.memcpy dst src n) := by
  intro a ha
  rw [Mem.memcpy_log, List.mem_append, mem_accesses] at ha
  rcases ha with ⟨k, hk, ha⟩ | ha
  · simp only [List.mem_cons, List.not_mem_nil, or_false] at ha
    rcases ha with rfl | rfl
    · exact .inr (.inr (hd k hk))
    · exact .inr (.inl hs)
  · exact .inl ha

theorem stays_memset {x : UInt8} (hd : ∀ k, k < n → Span imageVirgin size (dst + k)) :
    Stays size m (m.memset dst x n) := by
  intro a ha
  rw [Mem.memset_log, List.mem_append, mem_accesses] at ha
  rcases ha with ⟨k, hk, ha⟩ | ha
  · rw [List.mem_singleton] at ha
    exact .inr (.inr (ha ▸ hd k hk))
  · exact .inl ha

end Accesses

theorem frame_elsewhere (k : Nat) : Elsewhere ⟨.frame k, 0⟩ := ⟨nofun, nofun⟩

theorem yuv_elsewhere (k : Fin 3) : Elsewhere ⟨.yuv k, 0⟩ := ⟨nofun, nofun⟩

theorem span_elsewhere {k n : Nat} (q : Ptr Buf) (hq : Span (⟨.frame k, 0⟩ : Ptr Buf) n q) :
    Elsewhere q := by
  rw [Elsewhere, hq.1]
  exact frame_elsewhere k

section Conversions
variable {decodeJpegRaw : DecodeJpegRaw} {w h : Nat} {m : Mem Buf}

/-- The three planes are cleared and then copied from the decoder's. -/
theorem stays_mjpeg (k len : Nat) : Stays (w * h + w * h / 4 + w * h / 4) m
    (mjpegtoyuv420p decodeJpegRaw (fun k => ⟨.yuv k, 0⟩) imageVirgin ⟨.frame k, 0⟩ w h len m).2 := by
  have hy : ∀ k, k < w * h → Span imageVirgin (w * h + w * h / 4 + w * h / 4) (imageVirgin + k) :=
    fun k hk => span_add.mpr (by omega)
  have hu : ∀ k, k < w * h / 4 →
      Span imageVirgin (w * h + w * h / 4 + w * h / 4) (imageVirgin + w * h + k) :=
    fun k hk => by rw [Ptr.add_assoc, span_add]; omega
  have hv : ∀ k, k < w * h / 4 →
      Span imageVirgin (w * h + w * h / 4 + w * h / 4) (imageVirgin + w * h + w * h / 4 + k) :=
    fun k hk => by rw [Ptr.add_assoc, Ptr.add_assoc, span_add]; omega
  simp only [mjpegtoyuv420p]
  refine Stays.trans ?_ (stays_memcpy (yuv_elsewhere 2) hv)
  refine Stays.trans ?_ (stays_memcpy (yuv_elsewhere 1) hu)
  refine Stays.trans ?_ (stays_memcpy (yuv_elsewhere 0) hy)
  refine Stays.trans ?_ (stays_memset hv)
  refine Stays.trans ?_ (stays_memset hu)
  exact Stays.trans (stays_silent rfl) (stays_memset hy)

/-- An empty picture takes no Bayer samples, and is stored nowhere. -/
theorem bayer_empty (hw : w % 2 = 0) (h0 : w * h = 0) (dst src : Ptr Buf) :
    (convRgb24toyuv420p imageVirgin commonBuffer w h (bayer2rgb24 dst src w h m)).log = m.log := by
  rw [convRgb24_log imageVirgin commonBuffer hw, Nat.mul_comm h, bayer2rgb24, h0]
  rfl

theorem stays_rgb24 (hw : w % 2 = 0) (hh : h % 2 = 0) (k : Nat) :
    Stays (w * h + w * h / 4 + w * h / 4) m (convRgb24toyuv420p imageVirgin ⟨.frame k, 0⟩ w h m) := by
  intro a ha
  rcases convRgb24_touches hw hh ha with ha | ha | ha
  · exact .inl ha
  · exact .inr (.inr ha)
  · exact .inr (.inl (span_elsewhere _ ha))

/-- The formats that are written as a frame of the picture's dimensions. -/
def converted : PixFmt → Bool
  | .yuv420 => false
  | .other _ => false
  | _ => true

/-- **A conversion stays in the frame**, but for the Bayer formats of a picture
that is not empty. -/
theorem stays_convert (hw : w % 2 = 0) (hh : h % 2 = 0) {fmt : PixFmt}
    (hbayer : fmt = .sbggr8 → w * h = 0) (hsonix : fmt = .sn9c10x → h = 0) (k len : Nat)
    {bufsize size : Nat} (hbuf : bufsize ≤ size)
    (hframe : converted fmt = true → w * h + w * h / 4 + w * h / 4 ≤ size) :
    Stays size m (convert decodeJpegRaw fmt imageVirgin ⟨.frame k, 0⟩ w h bufsize len m).2 := by
  have hne : (⟨.frame k, 0⟩ : Ptr Buf).base ≠ imageVirgin.base := (frame_elsewhere k).1
  cases fmt with
  | sbggr8 => exact stays_silent (bayer_empty hw (hbayer rfl) _ _)
  | sn9c10x =>
    obtain rfl := hsonix rfl
    exact stays_silent (bayer_empty hw (Nat.mul_zero w) _ _)
  | rgb24 => exact (stays_rgb24 hw hh k).mono (hframe rfl)
  | uyvy => exact (stays_writes (convUyvyto420p_writes hne hw hh m) span_elsewhere).mono (hframe rfl)
  | yuyv => exact (stays_writes (convYuv422to420p_writes hne hw hh m) span_elsewhere).mono (hframe rfl)
  | yuv422p =>
    exact (stays_writes (convYuv422to420p_writes hne hw hh m) span_elsewhere).mono (hframe rfl)
  | yuv420 => exact stays_memcpy (frame_elsewhere k) fun i hi => span_add.mpr (by omega)
  | jpeg => exact (stays_mjpeg k len).mono (hframe rfl)
  | mjpeg => exact (stays_mjpeg k len).mono (hframe rfl)
  | other code => exact stays_silent rfl

/-- Every byte of the luma is stored. -/
theorem convert_stores (hw : w % 2 = 0) (hh : h % 2 = 0) {fmt : PixFmt} (hfmt : converted fmt = true)
    {i : Nat} (hi : i < w * h) (k bufsize len : Nat) : .store (imageVirgin + i) ∈
      (convert decodeJpegRaw fmt imageVirgin ⟨.frame k, 0⟩ w h bufsize len m).2.log := by
  have hne : (⟨.frame k, 0⟩ : Ptr Buf).base ≠ imageVirgin.base := (frame_elsewhere k).1
  have hwrites : ∀ {m₀ m' : Mem Buf} {F : Frame} {reads : Ptr Buf → Prop},
      Writes imageVirgin w h F reads m₀ (w * h) (w * h / 4) (w * h / 4) m' →
        .store (imageVirgin + i) ∈ m'.log := fun {m₀ m' _ _} hm => by
    have hcount := hm.stores (imageVirgin + i)
    rw [once, if_pos (span_add.mpr hi)] at hcount
    exact List.count_pos_iff.mp (by omega)
  have hrgb : ∀ (src : Ptr Buf) (m' : Mem Buf),
      .store (imageVirgin + i) ∈ (convRgb24toyuv420p imageVirgin src w h m').log := fun src m' => by
    rw [convRgb24_log imageVirgin src hw]
    refine List.mem_append_left _ (mem_accesses.mpr ⟨i, by rwa [Nat.mul_comm], ?_⟩)
    simp [rgbAccesses]
  have hmjpeg : .store (imageVirgin + i) ∈ (mjpegtoyuv420p decodeJpegRaw (fun k => ⟨.yuv k, 0⟩) imageVirgin
      ⟨.frame k, 0⟩ w h len m).2.log := by
    simp only [mjpegtoyuv420p, Mem.memcpy_log, List.mem_append, mem_accesses]
    exact .inr (.inr (.inl ⟨i, hi, List.mem_cons_self⟩))
  cases fmt with
  | sbggr8 => exact hrgb _ _
  | sn9c10x => exact hrgb _ _
  | rgb24 => exact hrgb _ _
  | uyvy => exact hwrites (convUyvyto420p_writes hne hw hh m)
  | yuyv => exact hwrites (convYuv422to420p_writes hne hw hh m)
  | yuv422p => exact hwrites (convYuv422to420p_writes hne hw hh m)
  | jpeg => exact hmjpeg
  | mjpeg => exact hmjpeg
  | yuv420 => cases hfmt
  | other code => cases hfmt

end Conversions

/-! ## What the sampling touches -/

theorem sampleSum_log (n : Nat) (m : Mem Buf) :
    (sampleSum n m).2.log =
      accesses (fun k => [.load (imageVirgin + 101 * k)]) ((n + 100) / 101) ++ m.log := by
  refine @loop_inv _ (fun k (s : Int × Mem Buf) =>
    s.2.log = accesses (fun k => [.load (imageVirgin + 101 * k)]) k ++ m.log) _ _ (0, m) rfl
    fun k s _ hs => ?_
  simp only [Mem.load, hs]
  rfl

/-! ## The sizes -/

/-- The bytes of the two frames the motion detection compares. -/
def motionBytes (w h : Nat) (color : Int) : Int :=
  if color ≠ 0 then int (int (w * h) * 3) else int (w * h)

/-- What `_motion_init` makes of a device of `w` by `h` pixels. -/
structure Sized (w h : Nat) (color : Int) (autobright : Bool) (c : Cam δ) : Prop where
  width : c.tsk.imgs.width = h
  height : c.tsk.imgs.height = w
  imageVirgin : c.tsk.imgs.imageVirgin = mymalloc (yuvBytes w h)
  ref : c.tsk.imgs.ref = mymalloc (motionBytes w h color)
  commonBuffer : c.tsk.imgs.commonBuffer = none
  motionsize : c.tsk.imgs.motionsize = motionBytes w h color
  autobright : c.tsk.conf.autobright = autobright
  v4lBufsize : c.viddev.v4lBufsize = yuvBytes w h
  v4lFmt : c.viddev.v4lFmt = paletteYuv420p

theorem startImages_yuv420p {dev : VideoDev} (hf : dev.v4lFmt = paletteYuv420p) (imgs : Images) :
    startImages dev imgs =
      { imgs with type := paletteYuv420p, size := yuvBytes dev.width dev.height } := by
  simp [startImages, hf, paletteYuv420p, paletteGrey, paletteYuyv, paletteRgb24, paletteYuv422]

theorem colorMode_imgs (color : Int) (dev : VideoDev) (tsk : Context) :
    (colorMode color dev tsk).imgs =
      { tsk.imgs with motionsize := motionBytes dev.width dev.height color } ∧
    (colorMode color dev tsk).conf.autobright = tsk.conf.autobright := by
  unfold colorMode motionBytes
  split
  · exact ⟨rfl, rfl⟩
  · exact ⟨rfl, rfl⟩

/-- The images once the buffers are allocated. -/
theorem allocateImages_imgs (color : Int) (dev : VideoDev) (tsk : Context) :
    (allocateImages (colorMode color dev tsk)).imgs = { tsk.imgs with
      motionsize := motionBytes dev.width dev.height color
      imageVirgin := mymalloc tsk.imgs.size
      ref := mymalloc (motionBytes dev.width dev.height color)
      out := mymalloc (motionBytes dev.width dev.height color) } ∧
    (allocateImages (colorMode color dev tsk)).conf.autobright = tsk.conf.autobright := by
  obtain ⟨himgs, hauto⟩ := colorMode_imgs color dev tsk
  unfold allocateImages
  dsimp only
  rw [himgs]
  exact ⟨rfl, hauto⟩

/-- From the start of the camera to the sizes: a quarter turn swaps the dimensions. -/
theorem sized_of_started {c s : Cam δ} (hs : Started c s) (hf : c.viddev.v4lFmt = paletteYuv420p)
    (hb : c.viddev.v4lBufsize = yuvBytes c.viddev.width c.viddev.height)
    (hw : c.tsk.imgs.width = c.viddev.width) (hh : c.tsk.imgs.height = c.viddev.height)
    (hcommon : c.tsk.imgs.commonBuffer = none) (color : Int) (t : Context)
    (ht : t = allocateImages (colorMode color s.viddev s.tsk)) :
    Sized c.viddev.width c.viddev.height color c.tsk.conf.autobright
      { s with tsk := rotateInit { t with conf := { t.conf with rotateDeg := 90 } } } := by
  obtain ⟨fd, hdev⟩ := hs.viddev
  obtain ⟨hwd, hhd, hfd, hbd⟩ : s.viddev.width = c.viddev.width ∧
      s.viddev.height = c.viddev.height ∧ s.viddev.v4lFmt = c.viddev.v4lFmt ∧
      s.viddev.v4lBufsize = c.viddev.v4lBufsize := by
    rw [hdev]
    exact ⟨rfl, rfl, rfl, rfl⟩
  obtain ⟨himgs, hauto⟩ := allocateImages_imgs color s.viddev s.tsk
  rw [← ht, hs.imgs, startImages_yuv420p (hfd.trans hf), hwd, hhd] at himgs
  rw [← ht, hs.conf] at hauto
  have htype : t.imgs.type = paletteYuv420p := by rw [himgs]
  have hprep : Prepared { t with conf := { t.conf with rotateDeg := 90 } }
      (rotateInit { t with conf := { t.conf with rotateDeg := 90 } }) := rotateInit_prepared htype
  have hdeg : (rotateInit { t with conf := { t.conf with rotateDeg := 90 } }).rotateData.degrees =
      90 := hprep.degrees
  have hturned := hprep.imgs
  rw [hdeg, if_pos (.inl rfl)] at hturned
  obtain ⟨deg, hconf⟩ := hprep.conf
  constructor
  · rw [hturned]; exact (congrArg Images.height himgs).trans hh
  · rw [hturned]; exact (congrArg Images.width himgs).trans hw
  · rw [hturned]
    dsimp only
    rw [himgs]
  · rw [hturned]
    dsimp only
    rw [himgs]
  · rw [hturned]; exact (congrArg Images.commonBuffer himgs).trans hcommon
  · rw [hturned]
    dsimp only
    rw [himgs]
  · rw [hconf]; exact hauto
  · exact hbd.trans hb
  · exact hfd.trans hf

theorem motionInit_sized (D : Driver δ) {c : Cam δ} (hcommon : c.tsk.imgs.commonBuffer = none)
    (color : Int) : Triple (fun s => s = c) (motionInit D color) fun ret c' => ret = 0 →
      Sized c.viddev.width c.viddev.height color c.tsk.conf.autobright c' ∧
        ∃ new, c'.trace = new ++ c.trace ∧ GrantedOnly c'.s.fmt new := by
  refine triple_bind (fun _ s => s = { c with viddev := { c.viddev with
    v4lFmt := paletteYuv420p, v4lBufsize := yuvBytes c.viddev.width c.viddev.height } })
    (triple_modify fun _ h => by rw [h]) fun _ => ?_
  refine triple_bind (fun _ s => s.viddev.width = c.viddev.width ∧
    s.viddev.height = c.viddev.height ∧ s.viddev.v4lFmt = paletteYuv420p ∧
    s.viddev.v4lBufsize = yuvBytes c.viddev.width c.viddev.height ∧
    s.tsk.imgs.width = c.viddev.width ∧ s.tsk.imgs.height = c.viddev.height ∧
    s.tsk.imgs.commonBuffer = none ∧ s.tsk.conf.autobright = c.tsk.conf.autobright ∧
    s.trace = c.trace)
    (triple_modify fun _ h => by
      rw [h]
      exact ⟨rfl, rfl, rfl, by dsimp only, rfl, rfl, hcommon, rfl, rfl⟩)
    fun _ => ?_
  refine triple_fix fun c₁ ⟨hw, hh, hf, hb, hiw, hih, hc, ha, ht⟩ => ?_
  rw [← hw, ← hh] at hb ⊢
  rw [← hw] at hiw
  rw [← hh] at hih
  rw [← ha, ← ht]
  refine triple_bind _ (videoV4l2Start_started D c₁) fun videoDev => ?_
  refine triple_keep (triple_modify fun s hs h0 =>
    ⟨(hs h0).viddev, (hs h0).imgs, (hs h0).conf, (hs h0).trace⟩) fun _ => ?_
  refine triple_ite (fun _ => triple_pure fun _ _ hret => nomatch hret) fun hpos => ?_
  refine triple_bind (fun _ s => ∃ s₀, Started c₁ s₀ ∧
      s = { s₀ with tsk := allocateImages (colorMode color s₀.viddev s₀.tsk) })
    (triple_modify fun s hs => ⟨s, hs (by omega), rfl⟩) fun _ => ?_
  refine triple_bind (fun _ s => Sized c₁.viddev.width c₁.viddev.height color
    c₁.tsk.conf.autobright s ∧ ∃ new, s.trace = new ++ c₁.trace ∧ GrantedOnly s.s.fmt new)
    (triple_modify fun s hs => ?_) fun _ => triple_pure fun _ h _ => h
  obtain ⟨s₀, hstarted, rfl⟩ := hs
  exact ⟨sized_of_started hstarted hf hb hiw hih hc color _ rfl, hstarted.trace⟩

/-! ## The accesses of a capture -/

/-- The access is not to the images' two buffers, or to a byte allocated for them. -/
def Within (tsk : Context) (a : Access Buf) : Prop :=
  a.ptr.base = .imageVirgin ∨ a.ptr.base = .commonBuffer →
    0 ≤ a.ptr.off ∧ a.ptr.off < tsk.allocated a.ptr.base

theorem InFrame.within {size : Nat} {tsk : Context} {a : Access Buf} (h : InFrame size a)
    (hsize : size ≤ tsk.allocated .imageVirgin) : Within tsk a := by
  intro hbase
  rcases h with helse | ⟨hb, hlo, hhi⟩
  · exact absurd hbase (not_or.mpr helse)
  · rw [show a.ptr.base = .imageVirgin from hb]
    simp only [imageVirgin] at hlo hhi
    omega

/-- A camera with no access on record. -/
def unlogged (c : Cam δ) : Cam δ := { c with mem := ⟨c.mem.byte, []⟩ }

variable (D : Driver δ) (decodeJpegRaw : DecodeJpegRaw)

/-- `video_v4l2_next` up to the rotation of the picture. -/
def captured (width height : Nat) : Prog (Cam δ) Int :=
  v4l2SetInput D decodeJpegRaw imageVirgin width height >>= fun _ =>
    v4l2Next D decodeJpegRaw imageVirgin width height

theorem videoV4l2Next_captured (c : Cam δ) :
    videoV4l2Next D decodeJpegRaw imageVirgin c =
      let r := captured D decodeJpegRaw c.tsk.imgs.width c.tsk.imgs.height c
      (r.1, (rotateCaptured imageVirgin r.2).2) := rfl

/-- What the calls of `v4l2_next` and `vid_do_autobright` in the next capture access. -/
def touched (c : Cam δ) : List (Access Buf) :=
  (captured D decodeJpegRaw c.tsk.imgs.width c.tsk.imgs.height (unlogged c)).2.mem.log

/-- Whatever the driver answers from here on, no capture leaves the buffers. -/
def Safe (c : Cam δ) : Prop :=
  ∀ (D : Driver δ) n, ∀ a ∈ touched D decodeJpegRaw ((attempt D decodeJpegRaw imageVirgin)^[n] c),
    Within ((attempt D decodeJpegRaw imageVirgin)^[n] c).tsk a

/-- What the conversion of a format and the sampling need of the sizes. -/
structure Room (w h : Nat) (color : Int) (autobright : Bool) (fmt : PixFmt) : Prop where
  frame : converted fmt = true → w * h + w * h / 4 + w * h / 4 ≤ (yuvBytes w h).toNat
  bayer : fmt = .sbggr8 → w * h = 0
  sonix : fmt = .sn9c10x → w = 0
  samples : autobright = true → ∀ k : Nat, 101 * k < (motionBytes w h color).toNat →
    101 * k < (yuvBytes w h).toNat

variable {D decodeJpegRaw} {w h : Nat} {color : Int} {autobright : Bool} {c c' : Cam δ}

theorem Sized.kept (hs : Sized w h color autobright c) (ht : c'.tsk = c.tsk)
    (hf : c'.viddev.v4lFmt = c.viddev.v4lFmt) (hb : c'.viddev.v4lBufsize = c.viddev.v4lBufsize) :
    Sized w h color autobright c' :=
  ⟨ht ▸ hs.width, ht ▸ hs.height, ht ▸ hs.imageVirgin, ht ▸ hs.ref, ht ▸ hs.commonBuffer,
    ht ▸ hs.motionsize, ht ▸ hs.autobright, hb ▸ hs.v4lBufsize, hf ▸ hs.v4lFmt⟩

theorem Sized.frame (hs : Sized w h color autobright c) :
    c.tsk.allocated .imageVirgin = (yuvBytes w h).toNat := by
  rw [Context.allocated, hs.imageVirgin, mymalloc]
  split
  · rw [Option.getD_none]
    omega
  · rw [Option.getD_some]

theorem Sized.common (hs : Sized w h color autobright c) : c.tsk.allocated .commonBuffer = 0 := by
  rw [Context.allocated, hs.commonBuffer, Option.getD_none]

/-! ## The buffers are large enough -/

/-- A camera whose buffers are large enough, and were not left. -/
structure Good (w h : Nat) (color : Int) (autobright : Bool) (c : Cam δ) : Prop where
  sized : Sized w h color autobright c
  room : Room w h color autobright c.s.fmt.pixelformat
  within : ∀ a ∈ c.mem.log, Within c.tsk a

theorem sampleSum_within (hg : Good w h color autobright c) (hauto : c.tsk.conf.autobright = true)
    {a : Access Buf} (ha : a ∈ (sampleSum c.tsk.imgs.motionsize.toNat c.mem).2.log) :
    Within c.tsk a := by
  rw [sampleSum_log, List.mem_append, mem_accesses] at ha
  rcases ha with ⟨k, hk, ha⟩ | ha
  · rw [List.mem_singleton.mp ha]
    have hbound := hg.room.samples (hg.sized.autobright ▸ hauto) k (by rw [← hg.sized.motionsize]; omega)
    exact InFrame.within (.inr (span_add.mpr hbound)) hg.sized.frame.ge
  · exact hg.within a ha

theorem good_capture : Capture D fun c c' => Good w h color autobright c →
    Good w h color autobright c' where
  refl _ := id
  trans h h' := h' ∘ h
  asked _ _ _ hg := ⟨hg.sized.kept rfl rfl rfl, hg.room, hg.within⟩
  source _ _ hf hg := ⟨hg.sized.kept rfl rfl rfl, hf ▸ hg.room, hg.within⟩
  clock _ hg := ⟨hg.sized.kept rfl rfl rfl, hg.room, hg.within⟩
  device _ _ hf hb hg := ⟨hg.sized.kept rfl hf hb, hg.room, hg.within⟩
  sampled _ hc hg := ⟨hg.sized.kept rfl rfl rfl, hg.room, fun _ ha => sampleSum_within hg hc ha⟩

theorem Requeued.mem {c₁ : Cam δ} (hq : Requeued D (blocked c) c₁) : c₁.mem = c.mem := by
  cases hq <;> rfl

/-- The frame of the rotated picture is that of the device. -/
theorem called_good (hw : w % 2 = 0) (hh : h % 2 = 0) {ret : Int}
    (hc : Called D decodeJpegRaw imageVirgin h w c ret c') (hg : Good w h color autobright c) :
    Good w h color autobright c' := by
  have hsteady := hc.steady
  refine ⟨hg.sized.kept hsteady.tsk hsteady.v4lFmt hsteady.v4lBufsize, hsteady.fmt ▸ hg.room, ?_⟩
  rw [hsteady.tsk]
  cases hc with
  | fatal _ => exact hg.within
  | refused _ _ _ => exact hg.within
  | missed _ hq _ =>
    intro a ha
    exact hg.within a (Requeued.mem hq ▸ ha)
  | @frame c₁ b _ hq _ =>
    intro a ha
    have h₁ := hq.steady
    have hroom : Room w h color autobright c₁.s.fmt.pixelformat := h₁.fmt ▸ hg.room
    have hbuf : c₁.viddev.v4lBufsize.toNat ≤ (yuvBytes w h).toNat := by
      rw [h₁.v4lBufsize, hg.sized.v4lBufsize]
    rcases stays_convert hh hw (fun hf => Nat.mul_comm h w ▸ hroom.bayer hf) hroom.sonix _ _ hbuf
      (fun hf => Nat.mul_comm h w ▸ hroom.frame hf) a ha with ha | ha
    · exact hg.within a (Requeued.mem hq ▸ ha)
    · exact ha.within hg.sized.frame.ge

theorem captured_steady (width height : Nat) :
    Keeps (Steady D) (captured D decodeJpegRaw width height) :=
  keeps_bind steady_frame (v4l2SetInput_steady imageVirgin width height) fun _ c =>
    (v4l2Next_called D decodeJpegRaw imageVirgin width height c).steady

theorem captured_good (hw : w % 2 = 0) (hh : h % 2 = 0) :
    Keeps (fun c c' : Cam δ => Good w h color autobright c → Good w h color autobright c')
      (captured D decodeJpegRaw h w) := by
  have hnext : Keeps (fun c c' : Cam δ =>
      Good w h color autobright c → Good w h color autobright c')
      (v4l2Next D decodeJpegRaw imageVirgin h w) :=
    fun c => called_good hw hh (v4l2Next_called D decodeJpegRaw imageVirgin h w c)
  have hgood : Capture D fun c c' : Cam δ => Good w h color autobright c →
      Good w h color autobright c' := good_capture
  exact keeps_bind hgood.toFrame (keeps_v4l2SetInput hnext hgood) fun _ => hnext

theorem attempt_sized (hs : Sized w h color autobright c) :
    Sized w h color autobright (attempt D decodeJpegRaw imageVirgin c) ∧
      (attempt D decodeJpegRaw imageVirgin c).s.fmt = c.s.fmt := by
  have hsteady : Steady D c
      (captured D decodeJpegRaw c.tsk.imgs.width c.tsk.imgs.height c).2 := captured_steady _ _ c
  have hs₁ := hs.kept hsteady.tsk hsteady.v4lFmt hsteady.v4lBufsize
  rw [attempt, videoV4l2Next_captured]
  dsimp only
  rw [rotateCaptured_state]
  split
  · exact ⟨hs₁.kept rfl rfl rfl, hsteady.fmt⟩
  · exact ⟨hs₁, hsteady.fmt⟩

theorem safe_of_room (hw : w % 2 = 0) (hh : h % 2 = 0) (hs : Sized w h color autobright c)
    (hroom : Room w h color autobright c.s.fmt.pixelformat) : Safe decodeJpegRaw c := by
  intro D n
  have hinv : Sized w h color autobright ((attempt D decodeJpegRaw imageVirgin)^[n] c) ∧
      ((attempt D decodeJpegRaw imageVirgin)^[n] c).s.fmt = c.s.fmt := by
    induction n with
    | zero => exact ⟨hs, rfl⟩
    | succ n ih =>
      rw [Function.iterate_succ_apply']
      exact ⟨(attempt_sized ih.1).1, (attempt_sized ih.1).2.trans ih.2⟩
  generalize (attempt D decodeJpegRaw imageVirgin)^[n] c = c' at *
  obtain ⟨hs', hf⟩ := hinv
  have hstart : Good w h color autobright (unlogged c') :=
    ⟨hs'.kept rfl rfl rfl, show Room _ _ _ _ c'.s.fmt.pixelformat from hf ▸ hroom,
      fun _ ha => nomatch ha⟩
  have hend : Good w h color autobright (captured D decodeJpegRaw h w (unlogged c')).2 :=
    captured_good hw hh _ hstart
  have htsk : (captured D decodeJpegRaw h w (unlogged c')).2.tsk = c'.tsk :=
    (captured_steady h w (unlogged c')).tsk
  intro a ha
  rw [touched, hs'.width, hs'.height] at ha
  exact htsk ▸ hend.within a ha

/-! ## Where they are not -/

theorem bayer_reads (hw : w % 2 = 0) (hpos : 0 < w * h) {fmt : PixFmt}
    (hf : fmt = .sbggr8 ∨ fmt = .sn9c10x) (src : Ptr Buf) (bufsize len : Nat) (m : Mem Buf) :
    .load commonBuffer ∈ (convert decodeJpegRaw fmt imageVirgin src w h bufsize len m).2.log := by
  have hread : ∀ m : Mem Buf,
      .load commonBuffer ∈ (convRgb24toyuv420p imageVirgin commonBuffer w h m).log := by
    intro m
    rw [convRgb24_log imageVirgin commonBuffer hw]
    refine List.mem_append_left _ (mem_accesses.mpr ⟨0, by rwa [Nat.mul_comm], ?_⟩)
    simp [rgbAccesses]
  rcases hf with rfl | rfl
  · exact hread _
  · exact hread _

theorem sonixRaw_logs {src : Ptr Buf} {a : Access Buf} {k : Nat} {s : SonixCursor Buf × Mem Buf}
    (ha : a = .store s.1.outp ∨ a ∈ s.2.log) : a ∈ (sonixRaw src k s).2.log := by
  simp only [sonixRaw, sonixCode, Mem.load, Mem.store_log, List.mem_cons]
  exact ha.imp id fun ha => .inr (.inr ha)

/-- The first row of a picture without columns is two raw pixels all the same. -/
theorem sonix_stores (hh : 0 < h) (dst src : Ptr Buf) (m : Mem Buf) :
    .store dst ∈ (sonixDecompress dst src 0 h m).log := by
  refine (@loop_inv _ (fun k (s : SonixCursor Buf × Mem Buf) =>
    .store dst = Access.store s.1.outp ∧ k = 0 ∨ .store dst ∈ s.2.log) h (sonixRow src 0)
    (⟨dst, 0⟩, m) (.inl ⟨rfl, rfl⟩) fun k s _ hs => .inr ?_).resolve_left fun h0 => hh.ne' h0.2
  rw [sonixRow, Nat.zero_sub, loop_zero]
  rcases hs with ⟨hout, rfl⟩ | hs
  · exact sonixRaw_logs (.inr (sonixRaw_logs (.inl hout)))
  · exact loop_inv (fun _ (s : SonixCursor Buf × Mem Buf) => .store dst ∈ s.2.log) hs
      fun _ _ _ hs => sonixRaw_logs (.inr hs)

theorem sonix_touches (hh : 0 < h) (src : Ptr Buf) (bufsize len : Nat) (m : Mem Buf) :
    .store imageVirgin ∈
      (convert decodeJpegRaw .sn9c10x imageVirgin src 0 h bufsize len m).2.log := by
  have hstore := sonix_stores hh imageVirgin src m
  simp only [convert]
  rw [convRgb24_log imageVirgin commonBuffer (Nat.zero_mod 2), bayer2rgb24, Nat.zero_mul, loop_zero]
  exact List.mem_append_right _ (List.mem_append_right _ (List.mem_append_right _ hstore))

/-- The conversion at the end of a capture that gets a frame. -/
theorem touched_camera (decodeJpegRaw : DecodeJpegRaw) (b : Dequeued)
    (hf : c.viddev.v4lFmt = paletteYuv420p) :
    ∃ index bufsize len m, touched (camera b) decodeJpegRaw c =
      (convert decodeJpegRaw c.s.fmt.pixelformat imageVirgin ⟨.frame index, 0⟩ c.tsk.imgs.width
        c.tsk.imgs.height bufsize len m).2.log := by
  have hset : Steady (camera b) (unlogged c) (v4l2SetInput (camera b) decodeJpegRaw imageVirgin
      c.tsk.imgs.width c.tsk.imgs.height (unlogged c)).2 := v4l2SetInput_steady _ _ _ _
  rw [touched, captured, bind_apply]
  generalize (v4l2SetInput (camera b) decodeJpegRaw imageVirgin c.tsk.imgs.width
    c.tsk.imgs.height (unlogged c)).2 = c₁ at *
  obtain ⟨c₂, hq, heq⟩ := camera_called (v4l2Next_called (camera b) decodeJpegRaw imageVirgin
    c.tsk.imgs.width c.tsk.imgs.height c₁) (hset.v4lFmt.trans hf)
  have hfmt : c₂.s.fmt = c.s.fmt := hq.steady.fmt.trans hset.fmt
  rw [(Prod.ext_iff.mp heq).2, ← hfmt]
  exact ⟨_, _, _, _, rfl⟩

/-! ### The sampling -/

/-- A driver that refuses everything. -/
def silent : Driver δ where
  ioctl _ d := (.error eio, d)
  gettimeofday d := (⟨0, 0⟩, d)
  standards := 0
  formats := 0
  standards_end _ _ _ := ⟨_, rfl⟩
  formats_end _ _ _ := ⟨_, rfl⟩

theorem silent_called {map : Ptr Buf} {width height : Nat} {ret : Int}
    (hc : Called silent decodeJpegRaw map width height c ret c') : c'.mem = c.mem := by
  cases hc with
  | fatal _ => rfl
  | refused _ _ _ => rfl
  | @missed c₁ _ _ hq _ => exact show c₁.mem = c.mem from Requeued.mem hq
  | frame _ _ ha => cases ha

/-- The byte at `p` was read. -/
def Sampled (p : Ptr Buf) (c : Cam δ) : Prop := .load p ∈ c.mem.log

theorem sampled_capture (p : Ptr Buf) : Capture D fun c c' => Sampled p c → Sampled p c' where
  refl _ := id
  trans h h' := h' ∘ h
  asked _ _ _ := id
  source _ _ _ := id
  clock _ := id
  device _ _ _ _ := id
  sampled _ _ ha := by
    rw [Sampled, sampleSum_log]
    exact List.mem_append_right _ ha

theorem steady_triple {α : Type} {t : Context} {p : Prog (Cam δ) α} (hp : Keeps (Steady D) p) :
    Triple (fun c => c.tsk = t) p fun _ c => c.tsk = t := fun c h => (hp c).tsk.trans h

section Sampling
variable {t : Context} (hauto : t.conf.autobright = true) {k : Nat}
  (hk : k < (t.imgs.motionsize.toNat + 100) / 101)
include hauto hk

theorem pictureControls_samples :
    Triple (fun c => c.tsk = t) (v4l2PictureControls D)
      fun _ => Sampled (imageVirgin + 101 * k) := by
  have hs := (steady_capture (D := D)).picturing
  refine triple_keep (steady_triple (keeps_pictureControl hs fun _ _ => ⟨rfl, rfl, rfl, rfl⟩)) fun _ =>
    ?_
  refine triple_keep (steady_triple (keeps_pictureControl hs fun _ _ => ⟨rfl, rfl, rfl, rfl⟩)) fun _ =>
    ?_
  refine triple_keep (steady_triple (keeps_pictureControl hs fun _ _ => ⟨rfl, rfl, rfl, rfl⟩)) fun _ =>
    ?_
  refine triple_get fun c₀ => triple_ite (fun _ => ?_) fun hoff => ?_
  · refine triple_bind (fun _ => Sampled (imageVirgin + 101 * k)) ?_ fun _ =>
      triple_ite (fun _ c => keeps_setBrightness (sampled_capture _).toAsking.requesting c) fun _ =>
        triple_pure fun _ h => h
    rintro c ⟨ht, -⟩
    obtain ⟨brightness, hstate⟩ := vidDoAutobright_state c
    rw [hstate, Sampled]
    dsimp only
    rw [sampleSum_log, ht]
    exact List.mem_append_left _ (mem_accesses.mpr ⟨k, hk, List.mem_singleton_self _⟩)
  · rintro c ⟨ht, rfl⟩
    exact absurd (ht ▸ hauto) hoff

/-- A capture without a frame keeps the samples of the picture controls on record. -/
theorem captured_samples (width height : Nat) :
    Triple (fun c : Cam δ => c.tsk = t) (captured silent decodeJpegRaw width height)
      fun _ => Sampled (imageVirgin + 101 * k) := by
  have hs : Capture silent fun c c' : Cam δ =>
      Sampled (imageVirgin + 101 * k) c → Sampled (imageVirgin + 101 * k) c' := sampled_capture _
  have hnext : Keeps (fun c c' : Cam δ =>
      Sampled (imageVirgin + 101 * k) c → Sampled (imageVirgin + 101 * k) c')
      (v4l2Next silent decodeJpegRaw imageVirgin width height) := fun c hc => by
    rw [Sampled, silent_called (v4l2Next_called silent decodeJpegRaw imageVirgin width height c)]
    exact hc
  refine triple_bind (fun _ => Sampled (imageVirgin + 101 * k)) ?_ fun _ => hnext
  refine triple_get fun c₀ => triple_get fun c₁ => triple_ite (fun _ => ?_) fun _ =>
    triple_conseq (pictureControls_samples hauto hk) fun c hc => hc.1.1
  refine triple_bind (fun _ c => c.tsk = t) (triple_conseq (steady_triple
    (keeps_v4l2SelectInput steady_capture.toAsking.requesting _ _ _)) fun c hc => hc.1.1) fun _ => ?_
  refine triple_keep (steady_triple steady_capture.clock) fun _ => ?_
  refine triple_bind _ (pictureControls_samples hauto hk) fun _ => ?_
  refine triple_keep (triple_modify fun _ hc => hc) fun _ => triple_get fun c₂ => ?_
  exact triple_bind (fun _ => Sampled (imageVirgin + 101 * k))
    (fun c hc => keeps_skipFrames hnext hs.toFrame _ _ c hc.1) fun _ =>
      keeps_skipMore hnext hs.toFrame _

end Sampling

/-! ## Exactly when -/

section Necessary
variable (hs : Sized w h color autobright c) (hsafe : Safe decodeJpegRaw c)
include hs hsafe

/-- A camera that delivers a frame has it converted within the buffers. -/
theorem convert_within : ∃ index bufsize len m, ∀ a ∈ (convert decodeJpegRaw c.s.fmt.pixelformat
    imageVirgin ⟨.frame index, 0⟩ h w bufsize len m).2.log, Within c.tsk a := by
  obtain ⟨index, bufsize, len, m, hlog⟩ :=
    touched_camera decodeJpegRaw ⟨0, 0, ⟨0, 0⟩, fun _ => 0⟩ hs.v4lFmt
  rw [hs.width, hs.height] at hlog
  exact ⟨index, bufsize, len, m, fun a ha =>
    hsafe (camera ⟨0, 0, ⟨0, 0⟩, fun _ => 0⟩) 0 a (hlog ▸ ha)⟩

theorem bayer_of_safe (hh : h % 2 = 0)
    (hf : c.s.fmt.pixelformat = .sbggr8 ∨ c.s.fmt.pixelformat = .sn9c10x) : w * h = 0 := by
  by_contra h0
  obtain ⟨index, bufsize, len, m, hin⟩ := convert_within hs hsafe
  have hpos : 0 < h * w := by rw [Nat.mul_comm]; omega
  have hlt := (hin _ (bayer_reads hh hpos hf _ bufsize len m) (.inr rfl)).2
  rw [show (Access.load commonBuffer).ptr.base = .commonBuffer from rfl, hs.common] at hlt
  exact absurd hlt (by decide)

/-- A size that is too small does not hold the last byte of the luma. -/
theorem frame_of_safe (hw : w % 2 = 0) (hh : h % 2 = 0)
    (hf : converted c.s.fmt.pixelformat = true) :
    w * h + w * h / 4 + w * h / 4 ≤ (yuvBytes w h).toNat := by
  obtain ⟨-, hfour, hhalf⟩ := frame_size hw hh
  by_cases hsize : w * h * 3 < 2 ^ 31
  · rw [yuvBytes_eq hsize, Int.toNat_natCast]
    omega
  · have hshort : yuvBytes w h < (w * h : Nat) := yuvBytes_overflow (Nat.le_of_not_lt hsize)
    obtain ⟨index, bufsize, len, m, hin⟩ := convert_within hs hsafe
    have hlast : w * h - 1 < h * w := by rw [Nat.mul_comm h]; omega
    have hlt := (hin _ (convert_stores hh hw hf hlast index bufsize len) (.inl rfl)).2
    rw [show (Access.store (imageVirgin + (w * h - 1))).ptr.base = .imageVirgin from rfl, hs.frame] at hlt
    simp only [Access.ptr_store, Ptr.add_off, imageVirgin] at hlt
    generalize yuvBytes w h = bytes at hshort hlt
    omega

theorem sonix_of_safe (hw : w % 2 = 0) (hh : h % 2 = 0) (hf : c.s.fmt.pixelformat = .sn9c10x) :
    w = 0 := by
  by_contra h0
  have hsize := bayer_of_safe hs hsafe hh (.inr hf)
  obtain rfl : h = 0 := (Nat.mul_eq_zero.mp hsize).resolve_left h0
  obtain ⟨index, bufsize, len, m, hin⟩ := convert_within hs hsafe
  have hlt := (hin _ (hf ▸ sonix_touches (by omega) _ bufsize len m) (.inl rfl)).2
  rw [show (Access.store imageVirgin).ptr.base = .imageVirgin from rfl, hs.frame,
    yuvBytes_eq (by rw [hsize]; decide), hsize] at hlt
  exact absurd hlt (by simp [imageVirgin])

theorem samples_of_safe (hauto : autobright = true) (k : Nat) (hk : 101 * k < (motionBytes w h color).toNat) :
    101 * k < (yuvBytes w h).toNat := by
  have hread : Sampled (imageVirgin + 101 * k) (captured silent decodeJpegRaw
      c.tsk.imgs.width c.tsk.imgs.height (unlogged c)).2 :=
    captured_samples (hs.autobright.trans hauto) (by rw [hs.motionsize]; omega) _ _ (unlogged c) rfl
  have hlt := (hsafe silent 0 _ hread (.inl rfl)).2
  rw [show (Access.load (imageVirgin + 101 * k)).ptr.base = .imageVirgin from rfl,
    Function.iterate_zero, id_eq, hs.frame] at hlt
  simp only [Access.ptr_load, Ptr.add_off, imageVirgin] at hlt
  omega

theorem room_of_safe (hw : w % 2 = 0) (hh : h % 2 = 0) :
    Room w h color autobright c.s.fmt.pixelformat :=
  ⟨frame_of_safe hs hsafe hw hh, fun hf => bayer_of_safe hs hsafe hh (.inl hf),
    sonix_of_safe hs hsafe hw hh, samples_of_safe hs hsafe⟩

end Necessary

/-! ### In numbers -/

/-- No `mymalloc` has ended the program; `out` is as long as `ref`. -/
structure Allocated (tsk : Context) : Prop where
  imageVirgin : tsk.imgs.imageVirgin ≠ none
  ref : tsk.imgs.ref ≠ none

/-- Where the buffers are large enough: a size that is an `int` if the format is
converted, no Bayer format, and no sampling in colour, but for pictures that are
empty. Those of which 2^32 bytes are lost are sampled as far as what is left. -/
structure Fits (w h : Nat) (color : Int) (autobright : Bool) (fmt : PixFmt) : Prop where
  size : converted fmt = true → w * h * 3 < 2 ^ 31
  bayer : fmt = .sbggr8 → w * h = 0
  sonix : fmt = .sn9c10x → w = 0
  sampled : autobright = true →
    if color ≠ 0 then w * h * 3 % 2 ^ 32 = 0 else w * h % 2 ^ 32 * 3 < 2 ^ 31

theorem mymalloc_ne_none {nbytes : Int} (h : mymalloc nbytes ≠ none) : 0 ≤ nbytes := by
  by_contra hneg
  exact h (if_pos (Int.not_le.mp hneg))

/-- The last sample decides. -/
theorem samples_iff {bytes room : Nat} : (∀ k, 101 * k < bytes → 101 * k < room) ↔
    bytes = 0 ∨ 101 * ((bytes - 1) / 101) < room := by
  constructor
  · intro h
    rcases Nat.eq_zero_or_pos bytes with h0 | hpos
    · exact .inl h0
    · exact .inr (h _ (by omega))
  · rintro (rfl | h) k hk
    · omega
    · omega

/-- Of the blocks of 256 bytes the last sample is behind the first half. -/
theorem last_sample {bytes : Nat} (hmul : 256 ∣ bytes) (hpos : 0 < bytes) :
    bytes ≤ 101 * ((bytes - 1) / 101) + 101 ∧ bytes / 2 ≤ 101 * ((bytes - 1) / 101) := by
  have hlast : bytes ≤ 101 * ((bytes - 1) / 101) + 101 := by omega
  exact ⟨hlast, by omega⟩

/-- The samples of one plane are within half of three. -/
theorem grey_within {pixels : Nat} (hmul : 256 ∣ pixels) (hfits : pixels * 3 < 2 ^ 31) :
    pixels = 0 ∨ 101 * ((pixels - 1) / 101) < ((pixels : Int) * 3).toNat / 2 := by
  omega

/-- They are not where 2^32 bytes of the three are lost. -/
theorem grey_behind {pixels : Nat} (hmul : 256 ∣ pixels) (hwraps : 2 ^ 31 ≤ pixels * 3)
    (hlt : (pixels : Int) < 2 ^ 31) :
    ¬ (pixels = 0 ∨ 101 * ((pixels - 1) / 101) < ((pixels : Int) * 3 - 2 ^ 32).toNat / 2) := by
  have hlast := (last_sample hmul (by omega)).1
  rintro (h | h)
  · omega
  · generalize (pixels - 1) / 101 = k at *
    omega

/-- The bytes of three planes are three for a pixel, or 2^32 less than that. -/
theorem int_three {n : Nat} (h : 0 ≤ int n) (h3 : 0 ≤ int (n * 3 : Nat)) :
    n % 2 ^ 32 * 3 < 2 ^ 31 ∧ int (n * 3 : Nat) = int n * 3 ∨
      2 ^ 31 ≤ n % 2 ^ 32 * 3 ∧ int (n * 3 : Nat) = int n * 3 - 2 ^ 32 := by
  have hrest := int_of_nonneg h
  have hrest3 := int_of_nonneg h3
  have hlt := int_lt (n * 3 : Nat)
  have hlt' := int_lt n
  rw [Nat.mul_mod] at hrest3
  omega

theorem tdiv_two_toNat {x : Int} (heven : 2 ∣ x) (h : 0 ≤ x.tdiv 2) :
    0 ≤ x ∧ (x.tdiv 2).toNat = x.toNat / 2 := by
  obtain ⟨k, rfl⟩ := heven
  rw [Int.mul_tdiv_cancel_left k two_ne_zero] at h ⊢
  omega

theorem int_planes : int (int (w * h) * 3) = int (w * h * 3 : Nat) := by
  rw [int_int_mul, ← Nat.cast_mul, Nat.cast_mul (w * h)]
  rfl

theorem yuvBytes_toNat (heven : 2 ∣ w * h) (h0 : 0 ≤ yuvBytes w h) :
    0 ≤ int (w * h * 3 : Nat) ∧ (yuvBytes w h).toNat = (int (w * h * 3 : Nat)).toNat / 2 := by
  have hcut : 2 ∣ int (w * h * 3 : Nat) := by
    obtain ⟨-, -, q, hq⟩ := int_spec (w * h * 3 : Nat)
    generalize int (w * h * 3 : Nat) = x at *
    omega
  rw [yuvBytes, int_planes] at h0 ⊢
  exact tdiv_two_toNat hcut h0

section Numbers
variable (hw : 16 ∣ w) (hh : 16 ∣ h) (h0 : 0 ≤ yuvBytes w h) (h1 : 0 ≤ motionBytes w h color)
include hw hh h0 h1

theorem sampled_iff :
    (∀ k, 101 * k < (motionBytes w h color).toNat → 101 * k < (yuvBytes w h).toNat) ↔
      if color ≠ 0 then w * h * 3 % 2 ^ 32 = 0 else w * h % 2 ^ 32 * 3 < 2 ^ 31 := by
  have hblocks : 256 ∣ w * h := Nat.mul_dvd_mul hw hh
  obtain ⟨hbytes, hyuv⟩ := yuvBytes_toNat (by omega) h0
  have hrest := int_of_nonneg hbytes
  rw [samples_iff, hyuv]
  split
  · next hcolor =>
    rw [motionBytes, if_pos hcolor, int_planes, hrest, Int.toNat_natCast]
    have hmul : 256 ∣ w * h * 3 % 2 ^ 32 := by omega
    generalize w * h * 3 % 2 ^ 32 = bytes at *
    constructor
    · rintro (h0 | hlt)
      · exact h0
      · by_contra hne
        exact absurd (last_sample hmul (Nat.pos_of_ne_zero hne)).2 (Nat.not_le.mpr hlt)
    · exact .inl
  · next hgrey =>
    rw [motionBytes, if_neg hgrey, ← Nat.cast_mul] at h1 ⊢
    have hpixels := int_of_nonneg h1
    have hlt := int_lt (w * h : Nat)
    have hmul : 256 ∣ w * h % 2 ^ 32 := by omega
    rw [hpixels] at hlt
    rcases int_three h1 hbytes with ⟨hfits, heq⟩ | ⟨hwraps, heq⟩
    · rw [heq, hpixels, Int.toNat_natCast]
      exact iff_of_true (grey_within hmul hfits) hfits
    · rw [heq, hpixels, Int.toNat_natCast]
      exact iff_of_false (grey_behind hmul hwraps hlt) (Nat.not_lt.mpr hwraps)

theorem room_iff_fits (fmt : PixFmt) : Room w h color autobright fmt ↔ Fits w h color autobright fmt := by
  constructor
  · intro hroom
    refine ⟨fun hf => ?_, hroom.bayer, hroom.sonix, fun hauto =>
      (sampled_iff hw hh h0 h1).mp (hroom.samples hauto)⟩
    by_contra hsize
    have hshort := yuvBytes_overflow (Nat.le_of_not_lt hsize)
    have hframe := hroom.frame hf
    generalize yuvBytes w h = bytes at *
    omega
  · intro hfits
    refine ⟨fun hf => ?_, hfits.bayer, hfits.sonix, fun hauto =>
      (sampled_iff hw hh h0 h1).mpr (hfits.sampled hauto)⟩
    obtain ⟨-, hfour, hhalf⟩ := frame_size (w := w) (h := h) (by omega) (by omega)
    rw [yuvBytes_eq (hfits.size hf), Int.toNat_natCast]
    omega

end Numbers

/-- **The buffers are large enough exactly where the size of what is converted is
an `int`, the format granted is no Bayer format and nothing is sampled behind the
frame.** -/
theorem buffers_suffice_iff (D : Driver δ) (decodeJpegRaw : DecodeJpegRaw) {c : Cam δ} {color : Int}
    (hcommon : c.tsk.imgs.commonBuffer = none) (hw : 16 ∣ c.viddev.width)
    (hh : 16 ∣ c.viddev.height) (hret : (motionInit D color c).1 = 0)
    (halloc : Allocated (motionInit D color c).2.tsk) :
    Safe decodeJpegRaw (motionInit D color c).2 ↔
      ∀ x ∈ asked c (motionInit D color c).2, ∀ fmt, Grants fmt x →
        Fits c.viddev.width c.viddev.height color c.tsk.conf.autobright fmt.pixelformat := by
  obtain ⟨hs, new, ht, hg⟩ := motionInit_sized D hcommon color c rfl hret
  have h0 := mymalloc_ne_none (hs.imageVirgin ▸ halloc.imageVirgin)
  have h1 := mymalloc_ne_none (hs.ref ▸ halloc.ref)
  rw [asked_of ht]
  constructor
  · intro hsafe x hx fmt hgx
    rw [(hg fmt).mp ⟨x, hx, hgx⟩]
    exact (room_iff_fits hw hh h0 h1 _).mp (room_of_safe hs hsafe (by omega) (by omega))
  · intro hall
    obtain ⟨x, hx, hgx⟩ := (hg _).mpr rfl
    exact safe_of_room (by omega) (by omega) hs ((room_iff_fits hw hh h0 h1 _).mpr (hall x hx _ hgx))

theorem buffers_suffice_camera :
    Safe noJpeg (motionInit (camera ⟨0, 0, ⟨0, 0⟩, fun _ => 0⟩) 1 (configured 320 240)).2 ↔
      ∀ x ∈ asked (configured 320 240)
          (motionInit (camera ⟨0, 0, ⟨0, 0⟩, fun _ => 0⟩) 1 (configured 320 240)).2,
        ∀ fmt, Grants fmt x → Fits 320 240 1 false fmt.pixelformat :=
  @buffers_suffice_iff _ _ noJpeg (configured 320 240) 1 rfl (by decide) (by decide)
    (by decide +kernel) ⟨by decide +kernel, by decide +kernel⟩

/-! ## A camera with one format -/

/-- A plain camera that captures raw Bayer samples whatever it is asked for. -/
def bayerOnly : Driver Unit where
  ioctl
    | .tryFmt fmt, d => (.ok { fmt with pixelformat := .sbggr8 }, d)
    | .enumFmt index, d => (if index = 0 then .ok (PixFmt.sbggr8 : PixFmt) else .error 22, d)
    | r, d => (plain ⟨0, 0, ⟨0, 0⟩, fun _ => 0⟩ r, d)
  gettimeofday d := (⟨0, 0⟩, d)
  standards := 0
  formats := 1
  standards_end _ _ _ := ⟨_, rfl⟩
  formats_end i _ hi := ⟨22, if_neg (by omega)⟩

/-- It starts, and its first frame is unpacked to a buffer that is not there. -/
theorem bayerOnly_not_safe :
    (motionInit bayerOnly 0 (configured 320 240)).1 = 0 ∧
      ¬ Safe noJpeg (motionInit bayerOnly 0 (configured 320 240)).2 := by
  have hret : (motionInit bayerOnly 0 (configured 320 240)).1 = 0 := by decide +kernel
  refine ⟨hret, fun hsafe => ?_⟩
  have hs := (motionInit_sized bayerOnly rfl 0 (configured 320 240) rfl hret).1
  have hfmt : (motionInit bayerOnly 0 (configured 320 240)).2.s.fmt.pixelformat = .sbggr8 := by
    decide +kernel
  exact absurd (bayer_of_safe hs hsafe (by decide) (.inl hfmt)) (by decide)

end SmartPrince.Eyes.SizingSoundness

import SmartPrince.Common.CaptureSoundness

/-! # Planar 4:2:2 frames

`v4l2_next` hands a V4L2_PIX_FMT_YUV422P frame to the converter of packed
frames. What it makes of one is the packed frame of the planar bytes; the
picture is told from that by all but a few of its samples. -/
namespace SmartPrince.Common.PlanarSoundness
open SmartPrince.Lib.Memory SmartPrince.Common.CameraState SmartPrince.Common.Yuv420p
open SmartPrince.Common.VideoConv SmartPrince.Common.Yuv422Soundness SmartPrince.Common.V4l2
open SmartPrince.Common.Video SmartPrince.Common.VideoSpec SmartPrince.Common.CaptureSoundness

/-! ## The planar layout -/

/-- The samples of a picture in raster order. -/
def luma (P : Picture) (w k : Nat) : UInt8 := P.y (k % w) (k / w)

def chromaU (P : Picture) (w k : Nat) : UInt8 := P.u (k % (w / 2)) (k / (w / 2))

def chromaV (P : Picture) (w k : Nat) : UInt8 := P.v (k % (w / 2)) (k / (w / 2))

/-- Byte `i` of the YUV422P layout: `w * h` luma bytes, then the two chroma
planes of `w / 2 * h` bytes each. -/
def yuv422p (P : Picture) (w h i : Nat) : UInt8 :=
  if i < w * h then luma P w i
  else if i < w * h + w / 2 * h then chromaU P w (i - w * h)
  else chromaV P w (i - w * h - w / 2 * h)

/-- Whatever the drivers do, a planar and a packed frame of one picture leave
the same frame at `map`, if both captures succeed. -/
def AlikeInBoth (decodeJpegRaw : DecodeJpegRaw) (map : Ptr Buf) (w h : Nat) (P : Picture) : Prop :=
  ∀ (δ δ' : Type) (D : Driver δ) (D' : Driver δ') (c : Cam δ) (c' : Cam δ') (b b' : Dequeued),
    c.s.fmt.pixelformat = .yuv422p → c'.s.fmt.pixelformat = .yuyv →
    let planar := v4l2Next D decodeJpegRaw map w h c
    let packed := v4l2Next D' decodeJpegRaw map w h c'
    planar.1 = 0 → packed.1 = 0 → Delivered planar.2 b → Delivered packed.2 b' →
    (∀ i, i < 2 * (w * h) → b.frame i = yuv422p P w h i) →
    (∀ i, i < 2 * (w * h) → b'.frame i = P.yuyv w i) →
    (getFrame map w h planar.2.mem.byte).Same w h (getFrame map w h packed.2.mem.byte)

/-- The samples on which the packed reading of the planar bytes comes out
right. Luma sample `k` is read from byte `2 * k`: a luma sample in the first
half of the picture, a chroma sample in the second. A chroma sample is the
average of two odd bytes that lie two rows of luma apart. -/
structure Coincides (P : Picture) (w h : Nat) : Prop where
  upper : ∀ k, 2 * k < w * h → luma P w k = luma P w (2 * k)
  middle : ∀ k, k < w * h / 4 → luma P w (w * h / 2 + k) = chromaU P w (2 * k)
  lower : ∀ k, k < w * h / 4 →
    luma P w (w * h / 2 + w * h / 4 + k) = chromaV P w (2 * k)
  averageU : ∀ k, k < w * h / 4 → (P.planar w).u k =
    mean (yuv422p P w h (cellOff w k + 1)) (yuv422p P w h (cellOff w k + 1 + w * 2))
  averageV : ∀ k, k < w * h / 4 → (P.planar w).v k =
    mean (yuv422p P w h (cellOff w k + 3)) (yuv422p P w h (cellOff w k + 3 + w * 2))

/-! ## The packed reading of it -/

theorem halfPlane {w h : Nat} (hw : w % 2 = 0) : w / 2 * h = w * h / 2 := by
  rw [Nat.mul_comm, ← Nat.mul_div_assoc h (Nat.dvd_of_mod_eq_zero hw), Nat.mul_comm]

section Reading
variable {P : Picture} {w h : Nat} (hw : w % 2 = 0) (hh : h % 2 = 0)
include hw hh

/-- The even bytes: luma, U, V. -/
theorem yuv422p_even (k : Nat) :
    (2 * k < w * h → yuv422p P w h (2 * k) = luma P w (2 * k)) ∧
    (k < w * h / 4 →
      yuv422p P w h (2 * (w * h / 2 + k)) = chromaU P w (2 * k) ∧
      yuv422p P w h (2 * (w * h / 2 + w * h / 4 + k)) = chromaV P w (2 * k)) := by
  obtain ⟨-, h4, -⟩ := frame_size hw hh
  have hhalf := halfPlane (h := h) hw
  refine ⟨fun hk => if_pos hk, fun hk => ⟨?_, ?_⟩⟩
  · rw [yuv422p, if_neg (by omega), if_pos (by omega),
      show 2 * (w * h / 2 + k) - w * h = 2 * k by omega]
  · rw [yuv422p, if_neg (by omega), if_neg (by omega),
      show 2 * (w * h / 2 + w * h / 4 + k) - w * h - w / 2 * h = 2 * k by omega]

theorem same_iff_coincides :
    (yuyvFrame w (yuv422p P w h)).Same w h (P.planar w) ↔ Coincides P w h := by
  obtain ⟨-, h4, -⟩ := frame_size hw hh
  have heven := yuv422p_even (P := P) hw hh
  constructor
  · rintro ⟨hy, hu, hv⟩
    refine ⟨fun k hk => ?_, fun k hk => ?_, fun k hk => ?_, fun k hk => (hu k hk).symm,
      fun k hk => (hv k hk).symm⟩
    · exact (hy k (by omega)).symm.trans ((heven k).1 hk)
    · exact (hy _ (by omega)).symm.trans ((heven k).2 hk).1
    · exact (hy _ (by omega)).symm.trans ((heven k).2 hk).2
  · intro hc
    refine ⟨fun k hk => ?_, fun k hk => (hc.averageU k hk).symm, fun k hk => (hc.averageV k hk).symm⟩
    show yuv422p P w h (2 * k) = luma P w k
    by_cases h2 : 2 * k < w * h
    · rw [(heven k).1 h2, hc.upper k h2]
    · obtain ⟨j, rfl⟩ : ∃ j, k = w * h / 2 + j := ⟨k - w * h / 2, by omega⟩
      by_cases hj : j < w * h / 4
      · rw [((heven j).2 hj).1, hc.middle j hj]
      · obtain ⟨i, rfl⟩ : ∃ i, j = w * h / 4 + i := ⟨j - w * h / 4, by omega⟩
        rw [← Nat.add_assoc, ((heven i).2 (by omega)).2, hc.lower i (by omega)]

end Reading

/-! ## The two captures -/

theorem yuyvFrame_congr {w h : Nat} (hw : w % 2 = 0) (hh : h % 2 = 0) {src src' : Nat → UInt8}
    (hs : ∀ i, i < 2 * (w * h) → src i = src' i) :
    (yuyvFrame w src).Same w h (yuyvFrame w src') := by
  refine ⟨fun k hk => hs _ (by omega), fun k hk => ?_, fun k hk => ?_⟩ <;>
    have hlt := cellOff_lt hw hh hk
  · simp only [yuyvFrame, packedFrame]
    rw [hs _ (by omega), hs _ (by omega)]
  · simp only [yuyvFrame, packedFrame]
    rw [hs _ (by omega), hs _ (by omega)]

section Captures
variable {decodeJpegRaw : DecodeJpegRaw} {map : Ptr Buf} (hmap : ∀ k, map.base ≠ .frame k)
  {w h : Nat} (hw : w % 2 = 0) (hh : h % 2 = 0)
include hmap hw hh

/-- Either format goes through the packed converter. -/
theorem v4l2Next_packed {δ : Type} {D : Driver δ} {c : Cam δ} {b : Dequeued}
    (hfmt : c.s.fmt.pixelformat = .yuyv ∨ c.s.fmt.pixelformat = .yuv422p)
    (hret : (v4l2Next D decodeJpegRaw map w h c).1 = 0)
    (hb : Delivered (v4l2Next D decodeJpegRaw map w h c).2 b) :
    (getFrame map w h (v4l2Next D decodeJpegRaw map w h c).2.mem.byte).Same w h
      (yuyvFrame w b.frame) := by
  obtain ⟨d, b', rest, k, bufsize, len, m, -, ht, hmem⟩ :=
    (v4l2Next_called D decodeJpegRaw map w h c).success hret
  obtain rfl := delivered_unique hb ⟨_, rest, ht, d, rfl⟩
  have hconv : (convert decodeJpegRaw c.s.fmt.pixelformat map ⟨.frame k, 0⟩ w h bufsize len
      (deliver k b.frame m)).2 = convYuv422to420p map ⟨.frame k, 0⟩ w h (deliver k b.frame m) := by
    rcases hfmt with hf | hf <;> rw [hf] <;> rfl
  have hbase : (⟨.frame k, 0⟩ : Ptr Buf).base ≠ map.base := (hmap k).symm
  have hwrites := convYuv422to420p_writes hbase hw hh (deliver k b.frame m)
  rw [hmem, hconv, hwrites.byte, deliver_frame]
  exact getFrame_putFrame

/-- The frame left by the planar capture is that of the packed one where the
samples coincide. -/
theorem alike_of_coincides {P : Picture} (hc : Coincides P w h) :
    AlikeInBoth decodeJpegRaw map w h P := by
  intro δ δ' D D' c c' b b' hf hf' planar packed hret hret' hb hb' hbytes hbytes'
  have hplanar := v4l2Next_packed hmap hw hh (.inr hf) hret hb
  have hpacked := v4l2Next_packed hmap hw hh (.inl hf') hret' hb'
  have hlike := (yuyvFrame_congr hw hh hbytes).trans ((same_iff_coincides hw hh).mpr hc)
  exact hplanar.trans (hlike.trans ((yuyv_planar P hw _ hbytes' hh).symm.trans hpacked.symm))

/-- A camera of this format that delivers a frame at every call. -/
def receiving (fmt : PixFmt) (w h : Nat) : Cam Unit :=
  let c := poised () ⟨fun _ => 0, []⟩ 0 .yuyv w h
  { c with s := { c.s with fmt := ⟨w, h, fmt⟩ } }

omit hmap hw hh in
theorem receiving_next (decodeJpegRaw : DecodeJpegRaw) (map : Ptr Buf) (w h : Nat) {fmt : PixFmt}
    (hfmt : fmt = .yuyv ∨ fmt = .yuv422p) (frame : Nat → UInt8) :
    ∃ b, (v4l2Next (camera ⟨0, 0, ⟨0, 0⟩, frame⟩) decodeJpegRaw map w h (receiving fmt w h)).1 = 0 ∧
      Delivered (v4l2Next (camera ⟨0, 0, ⟨0, 0⟩, frame⟩) decodeJpegRaw map w h
        (receiving fmt w h)).2 b ∧ b.frame = frame := by
  have hcalled := v4l2Next_called (camera ⟨0, 0, ⟨0, 0⟩, frame⟩) decodeJpegRaw map w h
    (receiving fmt w h)
  have hret := camera_success hcalled rfl fun src bufsize len m => by
    rcases hfmt with rfl | rfl <;> rfl
  obtain ⟨d, b, rest, k, bufsize, len, m, ha, ht, -⟩ := hcalled.success hret
  refine ⟨b, hret, ⟨_, rest, ht, d, rfl⟩, ?_⟩
  cases ha
  rfl

theorem coincides_of_alike {P : Picture} (hall : AlikeInBoth decodeJpegRaw map w h P) :
    Coincides P w h := by
  obtain ⟨b, hret, hb, hframe⟩ := receiving_next decodeJpegRaw map w h (.inr rfl)
    (yuv422p P w h)
  obtain ⟨b', hret', hb', hframe'⟩ := receiving_next decodeJpegRaw map w h (.inl rfl)
    (P.yuyv w)
  have hplanar := v4l2Next_packed hmap hw hh (.inr rfl) hret hb
  have hpacked := v4l2Next_packed hmap hw hh (.inl rfl) hret' hb'
  have halike := hall _ _ _ _ _ _ b b' rfl rfl hret hret' hb hb'
    (fun i _ => by rw [hframe]) (fun i _ => by rw [hframe'])
  rw [hframe] at hplanar
  rw [hframe'] at hpacked
  exact (same_iff_coincides hw hh).mp (hplanar.symm.trans (halike.trans
    (hpacked.trans (yuyv_planar P hw _ (fun _ _ => rfl) hh))))

/-- **A planar frame becomes the picture it holds exactly where its samples
coincide with what the packed converter takes for them.** -/
theorem planar_alike_iff (decodeJpegRaw : DecodeJpegRaw) (P : Picture) :
    AlikeInBoth decodeJpegRaw map w h P ↔ Coincides P w h :=
  ⟨coincides_of_alike hmap hw hh, alike_of_coincides hmap hw hh⟩

end Captures

/-- One gray everywhere. -/
def flat : Picture := ⟨fun _ _ => 128, fun _ _ => 128, fun _ _ => 128⟩

theorem planar_alike_flat : AlikeInBoth (fun _ _ _ _ => ⟨0, fun _ _ => none⟩) imageVirgin 2 2 flat ↔
    Coincides flat 2 2 :=
  planar_alike_iff (by intro k; nofun) (by decide) (by decide) _ flat

/-- The picture with a different sample everywhere comes out garbled. -/
theorem corners_not_alike :
    ¬ AlikeInBoth (fun _ _ _ _ => ⟨0, fun _ _ => none⟩) imageVirgin 2 2 corners := fun hall =>
  absurd ((coincides_of_alike (by intro k; nofun) (by decide) (by decide) hall).upper 1 (by decide))
    (by decide)

end SmartPrince.Common.PlanarSoundness

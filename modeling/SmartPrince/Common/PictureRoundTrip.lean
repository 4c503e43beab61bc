import SmartPrince.Common.JpegFieldsSoundness
import SmartPrince.Common.MjpegSoundness

/-! # Pictures in JPEG format

`mjpegtoyuv420p` reads back what `put_jpeg_yuv420p_…` writes, and the pointers
the latter hands over stay inside the image for frames of whole blocks only. -/
namespace SmartPrince.Common.PictureRoundTrip
open SmartPrince.Lib.Fill SmartPrince.Lib.Loop SmartPrince.Lib.Memory
open SmartPrince.Common.JpegUtils SmartPrince.Common.JpegEncode SmartPrince.Common.JpegFieldsSoundness
open SmartPrince.Common.JpegFields (Fields decodeFields chromaRows)
open SmartPrince.Common.MjpegSoundness SmartPrince.Common.Yuv420p

/-! ## The decoder where there is one field -/

section Progressive
variable {p : Picture} {ctype : Int} (h420 : ctype ≠ y4mChroma422)

include h420 in
theorem block_eq (rows : Fin 3 → Rows) (d : Decoding) :
    JpegFields.block ⟨p, 1⟩ ctype rows d = block p rows d := by
  simp [JpegFields.block, block, JpegFields.luma, luma, JpegFields.chroma, chroma, chromaRows, h420]

include h420 in
theorem scan_eq (jpeg : Jpeg) (k scanline : Nat) (d : Decoding) :
    JpegFields.scan ⟨p, 1⟩ ctype jpeg p.outputHeight k scanline d = scan p jpeg k scanline d := by
  fun_induction scan p jpeg k scanline d <;> rw [JpegFields.scan] <;> simp_all [block_eq]

/-- Half the height stands for two fields, and is refused where none are wanted. -/
theorem accept_cases (hd : Header) (width height : Nat) :
    JpegFields.accept hd width height = (accept hd width height).map (⟨·, 1⟩) ∨
      accept hd width height = none ∧
        ∃ q, JpegFields.accept hd width height = some q ∧ q.numfields = 2 := by
  unfold JpegFields.accept accept
  by_cases hcomponents : hd.outputComponents ≠ 3
  · simp [hcomponents]
  by_cases hs : hd.Supported
  · by_cases h444 : hd.hSampFactor 0 = 1 ∧ height % 8 ≠ 0
    · simp only [if_neg hcomponents, dif_pos hs, if_pos h444]
      exact .inl rfl
    · simp only [if_neg hcomponents, dif_pos hs, if_neg h444]
      by_cases hh : hd.outputHeight = height
      · subst hh
        by_cases hw : hd.outputWidth > maxLumaWidth <;> simp [hw]
      · by_cases hw : hd.outputWidth > maxLumaWidth <;>
          by_cases h2 : 2 * hd.outputHeight = height <;> simp [hh, hw, h2]
  · simp [hcomponents, hs]

theorem accept_height {hd : Header} {width height : Nat} (h : accept hd width height = some p) :
    p.outputHeight = hd.outputHeight := by
  unfold accept at h
  split_ifs at h
  obtain rfl := Option.some.inj h
  rfl

/-- `decode_jpeg_raw` for a frame that is not interlaced. -/
theorem decodeJpegRaw_progressive (jpeg : Jpeg) (buf1 buf2 : Rows) (width height : Nat) :
    JpegFields.decodeJpegRaw (fun _ => jpeg) buf1 buf2 0 420 width height =
      decodeJpegRaw jpeg buf1 buf2 width height := by
  unfold JpegFields.decodeJpegRaw decodeJpegRaw
  cases hs : jpeg.start with
  | none => rfl
  | some hd =>
    dsimp only
    obtain heq | ⟨hnone, q, hsome, hn⟩ := accept_cases hd width height
    · rw [heq]
      cases hp : accept hd width height with
      | none => rfl
      | some p =>
        simp only [Option.map_some, decodeFields, hs, ← accept_height hp]
        rw [if_neg (by decide), if_neg (by decide), scan_eq (by decide)]
        generalize scan p jpeg 0 0 _ = out
        obtain ⟨d, stop⟩ := out
        cases stop with
        | error | aborted => rfl
        | done => cases hf : jpeg.finish <;> simp [returned, hf]
    · rw [hnone, hsome]
      dsimp only
      rw [if_pos ⟨hn, by decide⟩]

end Progressive

/-! ## The rows of a picture -/

theorem imageCalls_get (width height k j : Nat) :
    (imageCalls width height j)[k]? =
      if j + 16 * k < height then some (imagePointers width height (j + 16 * k)) else none := by
  induction k generalizing j with
  | zero =>
    rw [imageCalls]
    by_cases h : j < height <;> simp [h]
  | succ k ih =>
    rw [imageCalls]
    by_cases h : j < height
    · rw [if_pos h, List.getElem?_cons_succ, ih, show j + 16 + 16 * k = j + 16 * (k + 1) by ring]
    · rw [if_neg h, List.getElem?_nil, if_neg (by omega)]

/-- Where a plane starts in the image. -/
def planeStart (width height : Nat) : Fin 3 → Nat
  | 0 => 0
  | 1 => width * height
  | 2 => width * height + width * height / 4

/-- Row `i` of a plane, of those that call `k` hands over. -/
theorem imagePointers_eq (width height k i : Nat) (c : Fin 3) :
    imagePointers width height (16 * k) c i = planeStart width height c +
      if c = 0 then (16 * k + i) * width else (8 * k + i) * (width / 2) := by
  have hhalf : (2 * i + 16 * k) / 2 = 8 * k + i := by omega
  match c with
  | 0 =>
    simp only [imagePointers, planeStart, if_true]
    ring
  | 1 | 2 =>
    simp only [imagePointers, planeStart, hhalf, Nat.mul_comm (width / 2)]
    rfl

/-! ## Inside the image -/

/-- The bytes of an image. -/
def imageSize (width height : Nat) : Nat := width * height + width * height / 4 + width * height / 4

section Inside
variable {width height : Nat}

theorem put_columns (width height : Nat) (c : Fin 3) :
    Header.columns (putJpegYuv420p width height).header c =
      8 * if c = 0 then (width + 7) / 8 else (width + 15) / 16 := by
  unfold Header.columns putJpegYuv420p
  by_cases hc : c = 0 <;> simp only [hc, if_true, if_false] <;> omega

theorem put_rows (width height : Nat) (c : Fin 3) :
    Header.rows (putJpegYuv420p width height).header c = if c = 0 then 16 else 8 := by
  unfold Header.rows putJpegYuv420p
  by_cases hc : c = 0 <;> simp [hc]

theorem quarter (hw : width % 2 = 0) (hh : height % 2 = 0) :
    width * height / 4 = height / 2 * (width / 2) := by
  rw [Nat.mul_comm (height / 2), (frame_size hw hh).1]

/-- The last row of the last plane leaves no room for a block that is not whole. -/
theorem whole_of_last {a b blocksA blocksB : Nat} (hA : 0 < blocksA) (ha : a ≤ 8 * blocksA)
    (hb : b ≤ 8 * blocksB) (hlast : (8 * blocksB - 1) * a + 8 * blocksA ≤ b * a) :
    a = 8 * blocksA ∧ b = 8 * blocksB := by
  have hwholeB : b = 8 * blocksB := by
    by_contra hne
    have : b * a ≤ (8 * blocksB - 1) * a := Nat.mul_le_mul_right _ (by omega)
    omega
  refine ⟨?_, hwholeB⟩
  rw [← hwholeB, Nat.sub_mul, Nat.one_mul] at hlast
  by_cases hb0 : b = 0
  · simp [hb0] at hlast
    omega
  · have : a ≤ b * a := Nat.le_mul_of_pos_left _ (Nat.pos_of_ne_zero hb0)
    omega

/-- **The rows handed over lie in the image exactly if it is made up of whole
blocks of 16 by 16.** -/
theorem inside_iff (hw0 : 0 < width) (hh0 : 0 < height) (hw : width % 2 = 0) (hh : height % 2 = 0) :
    (putJpegYuv420p width height).Inside (fun _ => imageSize width height) ↔
      width % 16 = 0 ∧ height % 16 = 0 := by
  constructor
  · intro h
    have hcall := (imageCalls_get width height ((height - 1) / 16) 0).trans (if_pos (by omega))
    have hlast := h _ (List.mem_of_getElem? hcall) 2 7 (8 * ((width + 15) / 16) - 1)
      (by rw [put_rows]; decide) (by rw [put_columns]; simp; omega)
    rw [Nat.zero_add, imagePointers_eq, if_neg (by decide), imageSize, quarter hw hh] at hlast
    have hstart : planeStart width height 2 = width * height + height / 2 * (width / 2) := by
      rw [← quarter hw hh]
      rfl
    rw [hstart] at hlast
    dsimp only at hlast
    have hrow : 8 * ((height - 1) / 16 + 1) - 1 = 8 * ((height - 1) / 16) + 7 := by omega
    have hwhole : width / 2 = 8 * ((width + 15) / 16) ∧ height / 2 = 8 * ((height - 1) / 16 + 1) :=
      whole_of_last (by omega) (by omega) (by omega) (by rw [hrow]; omega)
    omega
  · rintro ⟨hw16, hh16⟩ rows hmem c y x hy hx
    obtain ⟨k, hk⟩ := List.mem_iff_getElem?.mp hmem
    change (imageCalls width height 0)[k]? = _ at hk
    rw [imageCalls_get] at hk
    split_ifs at hk with hlast
    obtain rfl := Option.some.inj hk
    rw [put_rows] at hy
    rw [put_columns] at hx
    rw [Nat.zero_add] at hlast ⊢
    rw [imagePointers_eq, imageSize, quarter hw hh]
    dsimp only
    match c with
    | 0 =>
      rw [if_pos rfl] at hy hx ⊢
      have hin : (16 * k + y) * width + x < height * width := row_lt (by omega) (by omega)
      rw [Nat.mul_comm height] at hin
      change 0 + _ + x < _
      omega
    | 1 =>
      rw [if_neg (by decide)] at hy hx ⊢
      have hin : (8 * k + y) * (width / 2) + x < height / 2 * (width / 2) :=
        row_lt (by omega) (by omega)
      change width * height + _ + x < _
      omega
    | 2 =>
      rw [if_neg (by decide)] at hy hx ⊢
      have hin : (8 * k + y) * (width / 2) + x < height / 2 * (width / 2) :=
        row_lt (by omega) (by omega)
      change width * height + width * height / 4 + _ + x < _
      rw [quarter hw hh]
      omega

theorem inside_vga : (putJpegYuv420p 640 480).Inside (fun _ => imageSize 640 480) ↔
    640 % 16 = 0 ∧ 480 % 16 = 0 :=
  inside_iff (by decide) (by decide) rfl rfl

end Inside

/-! ## Read back -/

/-- A frame that the decoder takes, in whole rows of blocks. -/
structure Readable (width height : Nat) : Prop where
  width_pos : 0 < width
  width_le : width ≤ maxLumaWidth
  width_mod : width % 2 = 0
  height_mod : height % 16 = 0

section ReadBack
variable {width height : Nat}

theorem accept_put (h : Readable width height) :
    ∃ q, JpegFields.accept (putJpegYuv420p width height).header width height = some q ∧ Plain q ∧
      q.frame.vsf = 2 ∧ q.frame.width = width ∧ q.numfields = 1 := by
  have hsupported : (putJpegYuv420p width height).header.Supported :=
    ⟨.inl rfl, rfl, rfl, .inr rfl, rfl, rfl⟩
  have hcomponents : ¬ (putJpegYuv420p width height).header.outputComponents ≠ 3 := fun h => h rfl
  have h444 : ¬ ((putJpegYuv420p width height).header.hSampFactor 0 = 1 ∧ height % 8 ≠ 0) :=
    fun h => absurd h.1 (by decide : ¬ 2 = 1)
  unfold JpegFields.accept
  rw [if_neg hcomponents, dif_pos hsupported, if_neg h444]
  exact ⟨_, (if_pos rfl).trans (if_neg (Nat.not_lt.mpr h.width_le)),
    ⟨rfl, rfl, h.width_pos, h.width_mod⟩, rfl, rfl, rfl⟩

/-- The planes of an image. -/
def planesOf (image : Nat → UInt8) (width height : Nat) (c : Fin 3) (i : Nat) : UInt8 :=
  image (planeStart width height c + i)

theorem put_gives (h : Readable width height) {q : Fields} (hv : q.frame.vsf = 2)
    (hwidth : q.frame.width = width) (hn : q.numfields = 1) (image : Nat → UInt8) (k : Nat) :
    Gives q (planesOf image width height) 420 0 k fun c y x =>
      image (imagePointers width height (16 * k) c y + x) := by
  constructor
  · intro y x
    rw [imagePointers_eq, if_pos rfl, hv, hn, hwidth, Nat.zero_add, Nat.mul_one, Nat.add_assoc]
    rfl
  · intro c hc j x
    have hv1 : ¬ q.frame.vsf = 1 := by simp [hv]
    have h420 : ¬ (420 : Int) = y4mChroma422 := by decide
    unfold resampled chromaRows
    simp only [if_neg h420, if_neg hv1]
    rw [imagePointers_eq, if_neg hc, hn, hwidth,
      Nat.zero_add, Nat.mul_one, Nat.mul_div_assoc _ (Nat.dvd_of_mod_eq_zero h.width_mod), Nat.add_assoc]
    rfl

theorem decode_put (h : Readable width height) (image : Nat → UInt8) (buf1 buf2 : Rows) :
    decodeJpegRaw ((putJpegYuv420p width height).lossless fun _ => image) buf1 buf2 width height =
      ⟨fun c i => if i < planeSize 420 width height c then some (planesOf image width height c i)
        else none, some 0⟩ := by
  obtain ⟨q, haccept, hq, hv, hwidth, hn⟩ := accept_put h
  have hmod := h.height_mod
  have hrows : chromaRows q 420 = 8 := by
    have hv1 : ¬ q.frame.vsf = 1 := by simp [hv]
    unfold chromaRows
    rw [if_neg (by decide), if_neg hv1]
  have hsum : AddsUp q 0 420 width height (height / 16) := by
    refine ⟨hn, hwidth, ?_, ?_⟩
    · rw [hv, hn]
      omega
    · rw [hrows, hn, if_neg (by decide)]
      omega
  have hroom : asserted q 420 = true → 4 * (height / 16) * q.numfields ≤ q.frame.height / 2 := fun ha => by
    rw [asserted, hv] at ha
    cases ha
  have hcalls : 8 * q.frame.vsf * (height / 16) = height := by
    rw [hv]
    omega
  rw [← decodeJpegRaw_progressive]
  have hfirst : ∀ g, firstRow 0 g = 0 := fun _ => rfl
  refine decodeJpegRaw_planes hq hsum rfl haccept ⟨fun g hg => ?_, hroom,
    fun _ _ => ⟨_, rfl, hcalls.symm⟩, fun _ _ => rfl, fun g _ k hk => ?_⟩ (fun _ _ => rfl) buf1 buf2
  · rw [hfirst]
    exact Nat.zero_lt_of_lt hg
  · rw [hfirst]
    refine ⟨_, ?_, put_gives h hv hwidth hn image k⟩
    unfold Raw.lossless putJpegYuv420p
    dsimp only
    rw [imageCalls_get, Nat.zero_add, if_pos (by omega)]
    rfl

/-- The planes are laid out as they were in the image. -/
theorem produced_image (h : Readable width height) (image : Nat → UInt8) {i : Nat}
    (hi : i < imageSize width height) :
    MjpegSoundness.stored (fun c i => if i < planeSize 420 width height c then some (planesOf image width height c i)
      else none) width height i = some (image i) := by
  have hmod := h.height_mod
  have hsize : ∀ c, c ≠ 0 → planeSize 420 width height c = width * height / 4 := fun c hc => by
    rw [planeSize_chroma _ _ _ hc, if_neg (by decide), quarter h.width_mod (by omega), Nat.mul_comm]
  unfold imageSize at hi
  unfold MjpegSoundness.stored
  by_cases hy : i < width * height
  · have hplane : i < planeSize 420 width height 0 := hy
    rw [if_pos hy]
    dsimp only
    rw [if_pos hplane, planesOf, planeStart, Nat.zero_add]
  by_cases hu : i < width * height + width * height / 4
  · have hplane : i - width * height < planeSize 420 width height 1 := by
      rw [hsize 1 (by decide)]
      omega
    rw [if_neg hy, if_pos hu]
    dsimp only
    rw [if_pos hplane, planesOf, planeStart, Nat.add_sub_cancel' (by omega)]
  · have hplane : i - width * height - width * height / 4 < planeSize 420 width height 2 := by
      rw [hsize 2 (by decide)]
      omega
    rw [if_neg hy, if_neg hu]
    dsimp only
    rw [if_pos hplane, planesOf, planeStart, Nat.sub_sub, Nat.add_sub_cancel' (by omega)]

variable {ι : Type} [DecidableEq ι]

/-- **A frame that was saved as a picture is read back as it was**, byte for byte,
where the compression loses nothing. -/
theorem read_back (h : Readable width height) (image : Nat → UInt8) (buf1 buf2 : Rows)
    {yuv : Fin 3 → Ptr ι} {map : Ptr ι} (hmap : ∀ k, (yuv k).base ≠ map.base)
    (hyuv : ∀ j k, j ≠ k → (yuv j).base ≠ (yuv k).base) (capMap : Ptr ι) (size : Nat)
    (f : Ptr ι → UInt8) :
    ∃ m, mjpegtoyuv420p ((putJpegYuv420p width height).lossless fun _ => image) buf1 buf2 yuv map capMap
        width height size ⟨f, []⟩ = some (0, m) ∧
      (∀ i, i < imageSize width height → m.byte (map + i) = image i) ∧
      ∀ q, q.base = map.base → ¬ Span map (imageSize width height) q → m.byte q = f q := by
  let dec : VideoConv.DecodeJpeg := ⟨0, fun c i =>
    if i < planeSize 420 width height c then some (planesOf image width height c i) else none⟩
  refine ⟨(VideoConv.mjpegtoyuv420p (fun _ _ _ _ => dec) yuv map capMap width height size ⟨f, []⟩).2, ?_,
    fun i hi => ?_, fun q hq hout => ?_⟩
  · unfold mjpegtoyuv420p
    rw [decode_put h]
    rfl
  · rw [mjpegtoyuv420p_byte hmap hyuv capMap size f (show (map + i).base = map.base from rfl),
      putFrame_bytes hi]
    exact allocated_bytes f (produced_image h image hi)
  · rw [mjpegtoyuv420p_byte hmap hyuv capMap size f hq]
    exact putFrame_out hout

end ReadBack

open SmartPrince.Common.CameraState SmartPrince.Common.JpegSoundness in
theorem read_back_vga :
    ∃ m, mjpegtoyuv420p ((putJpegYuv420p 640 480).lossless fun _ i => UInt8.ofNat i) zeroRows zeroRows
        planes imageVirgin ⟨.frame 0, 0⟩ 640 480 20000 ⟨fun _ => 0, []⟩ = some (0, m) ∧
      (∀ i, i < imageSize 640 480 → m.byte (imageVirgin + i) = UInt8.ofNat i) ∧
      ∀ q, q.base = imageVirgin.base → ¬ Span imageVirgin (imageSize 640 480) q → m.byte q = 0 :=
  read_back ⟨by decide, by decide, rfl, rfl⟩ _ _ _ planes_map planes_apart _ _ _

end SmartPrince.Common.PictureRoundTrip

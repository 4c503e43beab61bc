import SmartPrince.Common.JpegFieldsSoundness

/-! # A frame is compressed and read back

Where the compression loses nothing, `decode_jpeg_raw` gives back the planes
that `encode_jpeg_raw` was given, field by field: the encoder takes each row of
chroma twice where there is one for two of luma, and the decoder takes the mean
of the two. -/
namespace SmartPrince.Common.JpegRoundTrip
open SmartPrince.Common.JpegUtils hiding accept luma chroma block scan decodeJpegRaw
open SmartPrince.Common.JpegEncode SmartPrince.Common.JpegFields SmartPrince.Common.JpegFieldsSoundness

/-! ## The rows that are handed over -/

/-- The rows of chroma that a call comes to. -/
def chromaStep (ctype : Int) : Nat := if ctype = y4mChroma422 then 8 else 4

theorem chromaRowAt_eq (ctype : Int) (n yc y : Nat) :
    chromaRowAt ctype n yc y = yc + (if ctype = y4mChroma422 then y else y / 2) * n := by
  induction y with
  | zero => simp [chromaRowAt]
  | succ y ih =>
    rw [chromaRowAt, ih, Nat.add_assoc]
    congr 1
    by_cases hc : ctype = y4mChroma422
    · simp [hc, Nat.add_mul]
    · by_cases hy : y % 2 = 1
      · have hhalf : (y + 1) / 2 = y / 2 + 1 := by omega
        simp [hc, hy, hhalf, Nat.add_mul]
      · have hhalf : (y + 1) / 2 = y / 2 := by omega
        simp [hc, hy, hhalf]

theorem chromaRowAt_block (ctype : Int) (n yc : Nat) :
    chromaRowAt ctype n yc 8 = yc + chromaStep ctype * n := by
  rw [chromaRowAt_eq, chromaStep]

theorem fieldCalls_get (ctype : Int) (n width imageHeight : Nat) (k scanline yl yc : Nat) :
    (fieldCalls ctype n width imageHeight scanline yl yc)[k]? =
      if scanline + 8 * k < imageHeight then
        some (rowPointers ctype n width (yl + 8 * k * n) (yc + chromaStep ctype * k * n))
      else none := by
  induction k generalizing scanline yl yc with
  | zero =>
    rw [fieldCalls]
    by_cases h : scanline < imageHeight <;> simp [h]
  | succ k ih =>
    rw [fieldCalls]
    by_cases h : scanline < imageHeight
    · rw [if_pos h, List.getElem?_cons_succ, ih, chromaRowAt_block,
        show scanline + 8 + 8 * k = scanline + 8 * (k + 1) by ring,
        show yl + 8 * n + 8 * k * n = yl + 8 * (k + 1) * n by ring,
        show yc + chromaStep ctype * n + chromaStep ctype * k * n =
          yc + chromaStep ctype * (k + 1) * n by ring]
    · rw [if_neg h, List.getElem?_nil, if_neg (by omega)]

theorem rowPointers_luma (ctype : Int) (n width first k y : Nat) :
    rowPointers ctype n width (first + 8 * k * n) (first + chromaStep ctype * k * n) 0 y =
      (first + (8 * k + y) * n) * width := by
  have hrow : rowPointers ctype n width (first + 8 * k * n) (first + chromaStep ctype * k * n) 0 y =
      (first + 8 * k * n + y * n) * width := rfl
  rw [hrow, Nat.add_assoc, ← Nat.add_mul]

theorem rowPointers_chroma (ctype : Int) (n width first k y : Nat) {c : Fin 3} (hc : c ≠ 0) :
    rowPointers ctype n width (first + 8 * k * n) (first + chromaStep ctype * k * n) c y =
      (first + (chromaStep ctype * k + if ctype = y4mChroma422 then y else y / 2) * n) * width / 2 := by
  have hrow : rowPointers ctype n width (first + 8 * k * n) (first + chromaStep ctype * k * n) c y =
      chromaRowAt ctype n (first + chromaStep ctype * k * n) y * width / 2 := by
    unfold rowPointers
    split
    · exact absurd rfl hc
    · rfl
  rw [hrow, chromaRowAt_eq, Nat.add_assoc, ← Nat.add_mul]

/-! ## The round trip -/

/-- What is checked of a frame before it is compressed. -/
structure Compressible (width height : Nat) : Prop where
  width_pos : 0 < width
  height_pos : 0 < height
  width_le : width ≤ 4096
  width_mod : width % 16 = 0
  height_mod : height % 16 = 0

/-- The fields as the decoder finds them in the buffer. -/
def inBuffer (itype ctype : Int) (width height : Nat) : List Raw :=
  (List.range (numfields itype)).map fun field =>
    ⟨fieldHeader width (height / numfields itype),
      fieldCalls ctype (numfields itype) width (height / numfields itype) 0 (firstRow itype field)
        (firstRow itype field)⟩

section Encoded
variable {itype ctype : Int} {width height : Nat} {raws : List Raw}

theorem encodeJpegRaw_some (h : encodeJpegRaw itype ctype width height = some raws) :
    Compressible width height ∧ raws = inBuffer itype ctype width height := by
  unfold encodeJpegRaw at h
  dsimp only at h
  split_ifs at h with hsize hmod htall hempty
  exact ⟨⟨by omega, by omega, by omega, by omega, by omega⟩, (Option.some.inj h).symm⟩

/-- The calls that each field comes to. -/
theorem calls_of (itype ctype : Int) (h : Compressible width height) :
    ∃ calls, height = 8 * calls * numfields itype ∧ height / numfields itype = 8 * calls ∧
      chromaStep ctype * calls * numfields itype = if ctype = y4mChroma422 then height else height / 2 := by
  have hmod := h.height_mod
  obtain ⟨hn, -⟩ | ⟨hn, -⟩ := numfields_cases itype <;> rw [hn]
  · refine ⟨height / 8, by omega, by omega, ?_⟩
    unfold chromaStep
    split <;> omega
  · refine ⟨height / 16, by omega, by omega, ?_⟩
    unfold chromaStep
    split <;> omega

/-- What the encoder writes is what the decoder takes. -/
theorem accept_field (h : Compressible width height) (itype : Int) :
    ∃ q, accept (fieldHeader width (height / numfields itype)) width height = some q ∧ Plain q ∧
      q.frame.vsf = 1 ∧ q.frame.width = width ∧ q.frame.height = height ∧ q.numfields = numfields itype := by
  have hsupported : (fieldHeader width (height / numfields itype)).Supported :=
    ⟨.inl rfl, rfl, rfl, .inl rfl, rfl, rfl⟩
  have heven : width % 2 = 0 := by
    have := h.width_mod
    omega
  have hpos := h.height_pos
  have hwidth : ¬ width > maxLumaWidth := Nat.not_lt.mpr h.width_le
  have hcomponents : ¬ (fieldHeader width (height / numfields itype)).outputComponents ≠ 3 :=
    fun h => h rfl
  have h444 : ¬ ((fieldHeader width (height / numfields itype)).hSampFactor 0 = 1 ∧ height % 8 ≠ 0) :=
    fun h => absurd h.1 (by decide : ¬ 2 = 1)
  unfold accept
  rw [if_neg hcomponents, dif_pos hsupported, if_neg h444]
  obtain ⟨hn, -⟩ | ⟨hn, -⟩ := numfields_cases itype
  · rw [hn, Nat.div_one]
    exact ⟨_, (if_pos rfl).trans (if_neg hwidth), ⟨rfl, rfl, h.width_pos, heven⟩, rfl, rfl, rfl, rfl⟩
  · have hmod := h.height_mod
    have hone : ¬ (fieldHeader width (height / 2)).outputHeight = height := by
      change ¬ height / 2 = height
      omega
    have htwo : 2 * (fieldHeader width (height / 2)).outputHeight = height := by
      change 2 * (height / 2) = height
      omega
    rw [hn]
    exact ⟨_, (if_neg hone).trans ((if_pos htwo).trans (if_neg hwidth)),
      ⟨rfl, rfl, h.width_pos, heven⟩, rfl, rfl, rfl, rfl⟩

theorem fieldHeader_rows (width imageHeight : Nat) (c : Fin 3) :
    Header.rows (fieldHeader width imageHeight) c = 8 := rfl

theorem fieldHeader_columns (h : Compressible width height) (imageHeight : Nat) (c : Fin 3) :
    Header.columns (fieldHeader width imageHeight) c = if c = 0 then width else width / 2 := by
  have hmod := h.width_mod
  unfold Header.columns fieldHeader
  by_cases hc : c = 0 <;> simp only [hc, if_true, if_false] <;> omega

/-- No row reaches beyond its plane. -/
theorem calls_inside (h : Compressible width height) (itype : Int) {field : Nat}
    (hfield : field < numfields itype) :
    Raw.Inside ⟨fieldHeader width (height / numfields itype),
      fieldCalls ctype (numfields itype) width (height / numfields itype) 0 (firstRow itype field)
        (firstRow itype field)⟩ (planeSize ctype width height) := by
  intro pointers hmem c y x hy hx
  obtain ⟨calls, hheight, hfieldHeight, hchroma⟩ := calls_of itype ctype h
  obtain ⟨k, hk⟩ := List.mem_iff_getElem?.mp hmem
  rw [fieldCalls_get, hfieldHeight] at hk
  split_ifs at hk with hlast
  obtain rfl := Option.some.inj hk
  rw [fieldHeader_rows] at hy
  rw [fieldHeader_columns h] at hx
  have hfirst := firstRow_lt itype hfield
  have hbound : ∀ {step rowsOf : Nat}, step + 1 ≤ rowsOf →
      firstRow itype field + step * numfields itype < rowsOf * numfields itype := fun hstep =>
    (Nat.add_lt_add_right hfirst _).trans_le
      (by rw [Nat.add_comm, ← Nat.succ_mul]; exact Nat.mul_le_mul_right _ hstep)
  by_cases hc : c = 0
  · subst hc
    rw [rowPointers_luma]
    have hrow := hbound (show 8 * k + y + 1 ≤ 8 * calls by omega)
    rw [← hheight] at hrow
    exact (row_lt hrow hx).trans_eq (Nat.mul_comm ..)
  · have hstep : chromaStep ctype * k + (if ctype = y4mChroma422 then y else y / 2) + 1 ≤
        chromaStep ctype * calls := by
      have hk : chromaStep ctype * (k + 1) ≤ chromaStep ctype * calls :=
        Nat.mul_le_mul_left _ (by omega)
      rw [Nat.mul_succ] at hk
      refine le_trans ?_ hk
      unfold chromaStep
      split <;> omega
    have hrow := hbound hstep
    rw [hchroma] at hrow
    rw [if_neg hc] at hx
    have hhalf : 2 ∣ width := by
      have := h.width_mod
      omega
    rw [rowPointers_chroma _ _ _ _ _ _ hc, planeSize_chroma _ _ _ hc, Nat.mul_div_assoc _ hhalf]
    exact (row_lt hrow hx).trans_eq (Nat.mul_comm ..)

/-- A block that was handed over gives the rows of the planes. -/
theorem handed_gives {q : Fields} (hv : q.frame.vsf = 1) (plane : Fin 3 → Nat → UInt8) (first k : Nat) :
    Gives q plane ctype first k fun c y x => plane c (rowPointers ctype q.numfields q.frame.width
      (first + 8 * k * q.numfields) (first + chromaStep ctype * k * q.numfields) c y + x) := by
  constructor
  · intro y x
    rw [rowPointers_luma, hv]
  · intro c hc j x
    by_cases h422 : ctype = y4mChroma422
    · simp only [resampled, chromaRows, if_pos h422, if_pos hv]
      rw [rowPointers_chroma _ _ _ _ _ _ hc, chromaStep, if_pos h422, if_pos h422]
    · -- the two rows whose mean is taken are one row of the plane
      have heven : 2 * j / 2 = j := by omega
      have hodd : (2 * j + 1) / 2 = j := by omega
      simp only [resampled, chromaRows, if_neg h422, if_pos hv]
      rw [rowPointers_chroma _ _ _ _ _ _ hc, rowPointers_chroma _ _ _ _ _ _ hc, if_neg h422, if_neg h422,
        heven, hodd, half_self, chromaStep, if_neg h422]

theorem pictures_field (ctype : Int) (width height : Nat) (plane : Fin 3 → Nat → UInt8) {g : Nat} (hg : g < numfields itype) :
    pictures plane (inBuffer itype ctype width height) g =
      Raw.lossless ⟨fieldHeader width (height / numfields itype),
        fieldCalls ctype (numfields itype) width (height / numfields itype) 0 (firstRow itype g)
          (firstRow itype g)⟩ plane := by
  unfold pictures inBuffer
  rw [List.getElem?_map, List.getElem?_range hg]
  rfl

/-- **What is compressed without loss is read back as it was**, progressive or by
fields, with its chroma in whole or in half height; no row reaches beyond its
plane on either side. -/
theorem decode_encode (h : encodeJpegRaw itype ctype width height = some raws)
    (plane : Fin 3 → Nat → UInt8) (buf1 buf2 : Rows) :
    (∀ raw ∈ raws, raw.Inside (planeSize ctype width height)) ∧
      decodeJpegRaw (pictures plane raws) buf1 buf2 itype ctype width height =
        ⟨fun c i => if i < planeSize ctype width height c then some (plane c i) else none, some 0⟩ := by
  obtain ⟨hc, rfl⟩ := encodeJpegRaw_some h
  refine ⟨fun raw hraw => ?_, ?_⟩
  · obtain ⟨field, hfield, rfl⟩ := List.mem_map.mp hraw
    exact calls_inside hc itype (List.mem_range.mp hfield)
  obtain ⟨calls, hheight, hfieldHeight, hchroma⟩ := calls_of itype ctype hc
  obtain ⟨q, haccept, hq, hv, hwidth, hh, hn⟩ := accept_field hc itype
  have hrows : chromaRows q ctype = chromaStep ctype := by
    unfold chromaRows chromaStep
    rw [if_pos hv, if_pos hv]
  have hsum : AddsUp q itype ctype width height calls := by
    refine ⟨hn, hwidth, ?_, ?_⟩
    · rw [hv, hn, hheight]
    · rw [hrows, hn, hchroma]
  have hfield := fun g (hg : g < q.numfields) => pictures_field ctype width height plane (hn ▸ hg)
  have hpos : 0 < q.numfields := by
    obtain ⟨h1, -⟩ | ⟨h2, -⟩ := numfields_cases itype <;> omega
  refine decodeJpegRaw_planes hq hsum (congrArg Jpeg.start (hfield 0 hpos)) haccept
    ⟨fun g hg => hn ▸ firstRow_lt itype (hn ▸ hg), fun ha => ?_, fun g hg => ?_, fun g hg => ?_,
      fun g hg k hk => ?_⟩ (fun g hg => ?_) buf1 buf2
  · have h420 : ctype ≠ y4mChroma422 := (of_decide_eq_true ha).1
    rw [chromaStep, if_neg h420, if_neg h420] at hchroma
    rw [hn, hh, hchroma]
  · rw [hfield g hg]
    exact ⟨_, rfl, by rw [hv]; exact hfieldHeight⟩
  · rw [hfield g hg]
    rfl
  · refine ⟨_, ?_, handed_gives hv plane (firstRow itype g) k⟩
    rw [hfield g hg, Raw.lossless]
    dsimp only
    rw [fieldCalls_get, hfieldHeight, if_pos (by omega), hwidth, hn]
    rfl
  · rw [hfield g hg]
    rfl

/-- The fields of a frame with the top field first. -/
def topFirst : List Raw := inBuffer 1 0 16 32

theorem decode_encode_topFirst :
    decodeJpegRaw (pictures (fun c i => UInt8.ofNat (c + i)) topFirst) (fun _ _ => 0) (fun _ _ => 0)
        1 0 16 32 =
      ⟨fun c i => if i < planeSize 0 16 32 c then some (UInt8.ofNat (c + i)) else none, some 0⟩ :=
  (decode_encode (rfl : encodeJpegRaw 1 0 16 32 = some topFirst) _ _ _).2

end Encoded

end SmartPrince.Common.JpegRoundTrip

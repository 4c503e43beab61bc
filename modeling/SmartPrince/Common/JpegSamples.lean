import SmartPrince.Common.JpegSoundness

/-! # Whose samples are stored

libjpeg fills whole blocks of 8 columns of the rows it is given. What lies
behind them is left from an earlier frame. So is what lies behind the first
`width / 2` columns of the chroma rows if all components are sampled alike: the
pairs that are averaged end there, and a picture that is downsampled is taken
from twice as many. -/
namespace SmartPrince.Common.JpegSamples
open SmartPrince.Lib.Fill SmartPrince.Lib.Loop
open SmartPrince.Common.JpegUtils SmartPrince.Common.JpegSoundness

/-! ## The same frame again -/

/-- The same samples in the first `n` columns. -/
def Agree (n : Nat) (rows rows' : Rows) : Prop := ∀ y x, x < n → rows y x = rows' y x

/-- The same frame, decompressed into rows that hold something else behind its samples. -/
structure SameFrame (jpeg jpeg' : Jpeg) : Prop where
  start : jpeg'.start = jpeg.start
  finish : jpeg'.finish = jpeg.finish
  warningSeen : jpeg'.warningSeen = jpeg.warningSeen
  rawData : ∀ hd, jpeg.start = some hd → ∀ k, Option.Rel
    (fun rows rows' => ∀ j, Agree (hd.columns j) (rows j) (rows' j)) (jpeg.rawData k) (jpeg'.rawData k)

theorem rel_some {α β : Type} {r : α → β → Prop} {a : Option α} {b : Option β} {x : α}
    (h : Option.Rel r a b) (ha : a = some x) : ∃ y, b = some y ∧ r x y := by
  cases h with
  | none => cases ha
  | some hr =>
    cases ha
    exact ⟨_, rfl, hr⟩

theorem SameFrame.refl (jpeg : Jpeg) : SameFrame jpeg jpeg := by
  refine ⟨rfl, rfl, rfl, fun hd _ k => ?_⟩
  cases jpeg.rawData k with
  | none => exact .none
  | some rows => exact .some fun _ _ _ _ => rfl

/-- The samples of a row that are stored are all the frame's. -/
def Fresh (p : Picture) : Prop :=
  if p.hdown = 0 then p.width ≤ 8 * ((p.outputWidth + 7) / 8)
  else p.hsf = 2 ∧ (p.hdown = 1 → 2 * p.width ≤ 8 * ((p.outputWidth + 7) / 8))

/-- The columns of a picture's component, by the sampling of its luma. -/
def columns (p : Picture) (k : Fin 3) : Nat :=
  if k = 0 ∨ p.hsf = 1 then 8 * ((p.outputWidth + 7) / 8) else 8 * ((p.outputWidth + 15) / 16)

variable {p : Picture}

theorem accept_columns {hd : Header} {width height : Nat} (h : accept hd width height = some p) :
    (p.hsf = 1 ∨ p.hsf = 2) ∧ ∀ k, hd.columns k = columns p k := by
  obtain ⟨-, -, hhsf, -, hwidth⟩ := accept_some h
  have hs : hd.Supported := by
    unfold accept at h
    split_ifs at h
    assumption
  refine ⟨hhsf ▸ hs.1.symm, fun k => ?_⟩
  rw [Header.columns, columns, hhsf, hwidth]
  obtain rfl | rfl | rfl : k = 0 ∨ k = 1 ∨ k = 2 := by omega
  · rcases hs.1 with h0 | h0
    · simp [h0]
      omega
    · simp [h0]
  · rcases hs.1 with h0 | h0 <;> simp [h0, hs.2.1]
  · rcases hs.1 with h0 | h0 <;> simp [h0, hs.2.2.1]

/-! ## Frames that are decoded from their own samples -/

theorem hdown_cases (p : Picture) : p.hdown = 0 ∨ p.hdown = 1 ∨ p.hdown = 2 := by
  unfold Picture.hdown
  split_ifs <;> simp

/-- What the kinds of downsampling say of the widths. -/
theorem hdown_width (p : Picture) : (p.hdown = 1 → p.width < 2 * p.outputWidth / 3) ∧
    (p.hdown = 2 → p.width = 2 * p.outputWidth / 3) := by
  unfold Picture.hdown
  split_ifs with h1 h2
  · exact ⟨fun _ => h1, nofun⟩
  · exact ⟨nofun, fun _ => h2⟩
  · exact ⟨nofun, nofun⟩

section Sufficient
variable (hhsf : p.hsf = 1 ∨ p.hsf = 2) (hfresh : Fresh p)
include hfresh

theorem lumaRow_same {row row' : Nat → UInt8} (h : ∀ x, x < columns p 0 → row x = row' x) (xd : Nat)
    (raw0 : Nat → Option UInt8) : lumaRow p row xd raw0 = lumaRow p row' xd raw0 := by
  have hdown := hdown_width p
  rw [Fresh] at hfresh
  rw [columns, if_pos (.inl rfl)] at h
  unfold lumaRow
  rcases hdown_cases p with h0 | h1 | h2
  · simp only [h0, if_true] at hfresh ⊢
    refine loop_congr (fun x t hx => ?_) raw0
    rw [h]
    simp only [Picture.xsl, h0]
    split_ifs <;> omega
  · simp only [h1, Nat.one_ne_zero, if_true, if_false] at hfresh ⊢
    have htwice := hfresh.2 trivial
    refine loop_congr (fun x t hx => ?_) raw0
    rw [h, h]
    · simp only [Picture.xsl, h1]
      split_ifs <;> omega
    · simp only [Picture.xsl, h1]
      split_ifs <;> omega
  · have hwidth := hdown.2 h2
    have hxsl : p.xsl = 0 := by simp [Picture.xsl, h2]
    simp only [h2, hxsl]
    refine loop_congr (fun x t hx => ?_) raw0
    rw [h, h, h] <;> omega

include hhsf in
/-- The rows of chroma as far as they are read. -/
theorem chr_same {rows rows' buf buf' : Rows} {k : Fin 3} (hk : k ≠ 0)
    (h : Agree (columns p k) rows rows') (y : Nat) {x : Nat} (hx : x < p.width / 2) :
    chr p (if p.hsf = 1 then halved p rows buf else rows) y x =
      chr p (if p.hsf = 1 then halved p rows' buf' else rows') y x := by
  have hdown := hdown_width p
  rw [Fresh] at hfresh
  rw [columns] at h
  rcases hhsf with h1 | h2
  · -- without downsampling the averages are all that is read
    have h0 : p.hdown = 0 := by
      by_contra hne
      rw [if_neg hne] at hfresh
      omega
    rw [if_pos h0] at hfresh
    rw [if_pos (.inr h1)] at h
    simp only [h1, if_true, chr, h0, halved]
    rw [if_pos (by omega), if_pos (by omega), Nat.add_sub_cancel_left, h _ _ (by omega),
      h _ _ (by omega)]
  · rw [if_neg (by omega)] at h
    simp only [h2, (by decide : (2 : Nat) ≠ 1), if_false]
    unfold chr
    rcases hdown_cases p with h0 | h1 | h2'
    · simp only [h0, if_true] at hfresh ⊢
      rw [h]
      simp only [Picture.xsc, Picture.xsl, h0]
      split_ifs <;> omega
    · simp only [h1, Nat.one_ne_zero, if_true, if_false] at hfresh ⊢
      have htwice := hfresh.2 trivial
      rw [h, h]
      · simp only [Picture.xsc, Picture.xsl, h1]
        split_ifs <;> omega
      · simp only [Picture.xsc, Picture.xsl, h1]
        split_ifs <;> omega
    · have hwidth := hdown.2 h2'
      have hxsc : p.xsc = 0 := by simp [Picture.xsc, Picture.xsl, h2']
      simp only [h2', hxsc]
      split
      · omega
      · split
        · omega
        · split
          · rw [h, h] <;> omega
          · rw [h, h] <;> omega

end Sufficient

theorem chroma_same {chr1 chr1' chr2 chr2' : Rows} (h1 : ∀ y x, x < p.width / 2 → chr1 y x = chr1' y x)
    (h2 : ∀ y x, x < p.width / 2 → chr2 y x = chr2' y x) (yc : Nat) (s : Chroma) :
    chroma p chr1 chr2 yc s = chroma p chr1' chr2' yc s := by
  unfold chroma chromaRow
  split
  · refine loop_congr (fun j t _ => loop_congr (fun x t hx => ?_) t) s
    dsimp only
    rw [h1 _ _ hx, h1 _ _ hx, h2 _ _ hx, h2 _ _ hx]
  · refine loop_congr (fun j t _ => loop_congr (fun x t hx => ?_) t) s
    rw [h1 _ _ hx, h2 _ _ hx]

/-- The same but for the rows that outlive a call. -/
structure Alike (d d' : Decoding) : Prop where
  raw0 : d'.raw0 = d.raw0
  raw1 : d'.raw1 = d.raw1
  raw2 : d'.raw2 = d.raw2
  yl : d'.yl = d.yl
  yc : d'.yc = d.yc

theorem Alike.raw {d d' : Decoding} (h : Alike d d') : d'.raw = d.raw := by
  funext k
  obtain rfl | rfl | rfl : k = 0 ∨ k = 1 ∨ k = 2 := by omega
  · exact h.raw0
  · exact h.raw1
  · exact h.raw2

section Lockstep
variable (hhsf : p.hsf = 1 ∨ p.hsf = 2) (hfresh : Fresh p)
include hhsf hfresh

/-- A block of the same samples stores the same, and the assertion fails in both or in none. -/
theorem block_same {rows rows' : Fin 3 → Rows} (h : ∀ j, Agree (columns p j) (rows j) (rows' j))
    {d d' : Decoding} (hd : Alike d d') :
    Alike (block p rows d).1 (block p rows' d').1 ∧ (block p rows' d').2 = (block p rows d).2 := by
  have hluma : (luma p (rows' 0) d').raw0 = (luma p (rows 0) d).raw0 := by
    simp only [luma, hd.yl, hd.raw0]
    exact loop_congr (fun y t _ =>
      (lumaRow_same hfresh (fun x hx => h 0 y x hx) _ _).symm) d.raw0
  have hchroma : ∀ s, chroma p (chr p (if p.hsf = 1 then halved p (rows' 1) d'.buf1 else rows' 1))
      (chr p (if p.hsf = 1 then halved p (rows' 2) d'.buf2 else rows' 2)) d.yc s =
        chroma p (chr p (if p.hsf = 1 then halved p (rows 1) d.buf1 else rows 1))
          (chr p (if p.hsf = 1 then halved p (rows 2) d.buf2 else rows 2)) d.yc s := fun s =>
    (chroma_same (fun y x hx => chr_same hhsf hfresh (by decide) (h 1) y hx)
      (fun y x hx => chr_same hhsf hfresh (by decide) (h 2) y hx) d.yc s).symm
  have hstored : ∀ {d : Decoding} {rows : Fin 3 → Rows}, block p rows d =
      let s := chroma p (chr p (if p.hsf = 1 then halved p (rows 1) d.buf1 else rows 1))
        (chr p (if p.hsf = 1 then halved p (rows 2) d.buf2 else rows 2)) d.yc ⟨d.raw1, d.raw2, false⟩
      ({ luma p (rows 0) d with
          raw1 := s.raw1, raw2 := s.raw2
          yc := d.yc + if p.vsf = 1 then 4 else 8
          buf1 := if p.hsf = 1 then halved p (rows 1) d.buf1 else rows 1
          buf2 := if p.hsf = 1 then halved p (rows 2) d.buf2 else rows 2 }, s.aborted) := rfl
  rw [hstored, hstored]
  dsimp only
  rw [hd.yc, hd.raw1, hd.raw2, hchroma]
  refine ⟨⟨hluma, rfl, rfl, ?_, rfl⟩, rfl⟩
  simp only [luma, hd.yl]

theorem scan_same {jpeg jpeg' : Jpeg} (h : ∀ k, Option.Rel
      (fun rows rows' => ∀ j, Agree (columns p j) (rows j) (rows' j)) (jpeg.rawData k) (jpeg'.rawData k))
    (k scanline : Nat) {d d' : Decoding} (hd : Alike d d') :
    Alike (scan p jpeg k scanline d).1 (scan p jpeg' k scanline d').1 ∧
      (scan p jpeg' k scanline d').2 = (scan p jpeg k scanline d).2 := by
  fun_induction scan p jpeg k scanline d generalizing d' with
  | case1 k scanline d hlt hnone =>
    have hk := h k
    rw [hnone] at hk
    cases hnone' : jpeg'.rawData k with
    | some rows' => rw [hnone'] at hk; cases hk
    | none =>
      rw [scan, if_pos hlt, hnone']
      exact ⟨hd, rfl⟩
  | case2 k scanline d hlt rows hsome hab =>
    obtain ⟨rows', hsome', hrows⟩ := rel_some (h k) hsome
    obtain ⟨halike, habort⟩ := block_same hhsf hfresh hrows hd
    rw [scan, if_pos hlt, hsome']
    dsimp only
    rw [if_pos (habort.trans hab)]
    exact ⟨halike, rfl⟩
  | case3 k scanline d hlt rows hsome hab ih =>
    obtain ⟨rows', hsome', hrows⟩ := rel_some (h k) hsome
    obtain ⟨halike, habort⟩ := block_same hhsf hfresh hrows hd
    have hstep : scan p jpeg' k scanline d' =
        scan p jpeg' (k + 1) (scanline + 8 * p.vsf) (block p rows' d').1 := by
      rw [scan, if_pos hlt, hsome']
      dsimp only
      rw [if_neg (habort ▸ hab)]
    rw [hstep]
    exact ih halike
  | case4 k scanline d hge =>
    rw [scan, if_neg hge]
    exact ⟨hd, rfl⟩

end Lockstep

/-- **Fresh samples make the planes**, whatever the rows held before. -/
theorem decodeJpegRaw_same {jpeg jpeg' : Jpeg} (h : SameFrame jpeg jpeg') {hd : Header}
    {width height : Nat} (hstart : jpeg.start = some hd) (hacc : accept hd width height = some p)
    (hfresh : Fresh p) (buf1 buf2 buf1' buf2' : Rows) :
    decodeJpegRaw jpeg' buf1' buf2' width height = decodeJpegRaw jpeg buf1 buf2 width height := by
  obtain ⟨hhsf, hcolumns⟩ := accept_columns hacc
  have hdata := h.rawData hd hstart
  simp only [hcolumns] at hdata
  have hblank : Alike ⟨fun _ => none, fun _ => none, fun _ => none, 0, 0, buf1, buf2⟩
      ⟨fun _ => none, fun _ => none, fun _ => none, 0, 0, buf1', buf2'⟩ := ⟨rfl, rfl, rfl, rfl, rfl⟩
  obtain ⟨halike, hstop⟩ := scan_same hhsf hfresh hdata 0 0 hblank
  simp only [decodeJpegRaw, h.start, hstart, hacc]
  rw [hstop]
  have hreturned : ∀ stop, returned jpeg' stop = returned jpeg stop := fun stop => by
    cases stop <;> simp only [returned, h.finish, h.warningSeen]
  rw [halike.raw, hreturned]

/-! ## The first row

It is stored with the first block, and later rows leave it. -/

section First
variable {i : Nat}

theorem lumaRow_before (row : Nat → UInt8) {xd : Nat} (hi : i < xd) (raw0 : Nat → Option UInt8) :
    lumaRow p row xd raw0 i = raw0 i := by
  unfold lumaRow
  split
  · rw [loop_put, if_neg (by omega)]
  · split
    · rw [loop_put, if_neg (by omega)]
    · refine loop_inv (fun _ (q : Nat → Option UInt8) => q i = raw0 i) rfl fun x q _ hq => ?_
      simp only [put]
      rw [Function.update_of_ne (by omega), Function.update_of_ne (by omega), hq]

theorem luma_later (row0 : Rows) {d : Decoding} (hyl : 0 < d.yl) (hi : i < p.width) :
    (luma p row0 d).raw0 i = d.raw0 i := by
  refine loop_inv (fun _ (q : Nat → Option UInt8) => q i = d.raw0 i) rfl fun y q _ hq => ?_
  have hrow : p.width ≤ (d.yl + y) * p.width := Nat.le_mul_of_pos_left _ (by omega)
  rw [lumaRow_before _ (by omega), hq]

theorem luma_first (row0 : Rows) {d : Decoding} (hyl : d.yl = 0) (hi : i < p.width) :
    (luma p row0 d).raw0 i = lumaRow p (row0 0) 0 d.raw0 i := by
  have hinv : (0 = 8 * p.vsf → (luma p row0 d).raw0 = d.raw0) ∧
      (0 < 8 * p.vsf → (luma p row0 d).raw0 i = lumaRow p (row0 0) 0 d.raw0 i) := by
    refine loop_inv (fun y (q : Nat → Option UInt8) => (0 = y → q = d.raw0) ∧
      (0 < y → q i = lumaRow p (row0 0) 0 d.raw0 i)) ⟨fun _ => rfl, nofun⟩ ?_
    rintro y q - ⟨hstart, hrest⟩
    refine ⟨nofun, fun _ => ?_⟩
    rw [hyl, Nat.zero_add]
    rcases Nat.eq_zero_or_pos y with rfl | hy
    · rw [hstart rfl, Nat.zero_mul]
    · have hrow : p.width ≤ y * p.width := Nat.le_mul_of_pos_left _ hy
      rw [lumaRow_before _ (by omega), hrest hy]
  exact hinv.2 (by rcases p.vsf_cases with hv | hv <;> omega)

theorem chromaSample_before {asserted : Bool} {xd : Nat} (hi : i < xd) (u v : UInt8) (s : Chroma) :
    (chromaSample p asserted xd u v s).raw1 i = s.raw1 i := by
  unfold chromaSample
  split_ifs
  · rfl
  · rfl
  · exact Function.update_of_ne (by omega) ..

theorem chromaRow_before {asserted : Bool} {yc : Nat} (hi : i < yc * p.width / 2) (u v : Nat → UInt8)
    (s : Chroma) : (chromaRow p asserted yc u v s).raw1 i = s.raw1 i :=
  loop_inv (fun _ t => t.raw1 i = s.raw1 i) rfl fun _ t _ ht =>
    (chromaSample_before (by omega) _ _ t).trans ht

variable (hw : p.width % 2 = 0)
include hw

theorem chromaRow_later {asserted : Bool} {yc : Nat} (hyc : 0 < yc) (hi : i < p.width / 2)
    (u v : Nat → UInt8) (s : Chroma) : (chromaRow p asserted yc u v s).raw1 i = s.raw1 i := by
  have hrow : p.width ≤ yc * p.width := Nat.le_mul_of_pos_left _ hyc
  exact chromaRow_before (by omega) u v s

omit hw in
theorem chromaRow_first (asserted : Bool) (hroom : p.width / 2 ≤ p.width * p.height / 4)
    (u v : Nat → UInt8) {s : Chroma} (hs : s.aborted = false) (hi : i < p.width / 2) :
    (chromaRow p asserted 0 u v s).raw1 i = some (u i) := by
  have hinv : (chromaRow p asserted 0 u v s).aborted = false ∧
      ∀ i, i < p.width / 2 → (chromaRow p asserted 0 u v s).raw1 i = some (u i) := by
    refine loop_inv (fun x (t : Chroma) => t.aborted = false ∧ ∀ i, i < x → t.raw1 i = some (u i))
      ⟨hs, nofun⟩ ?_
    rintro x t hx ⟨ht, hu⟩
    rw [Nat.zero_mul, Nat.zero_div, Nat.zero_add, chromaSample, if_neg (by simp [ht]),
      if_neg (by omega)]
    refine ⟨ht, fun j hj => ?_⟩
    rcases Nat.lt_succ_iff_lt_or_eq.mp hj with hj | rfl
    · exact (Function.update_of_ne (by omega) ..).trans (hu j hj)
    · exact Function.update_self ..
  exact hinv.2 i hi

theorem chroma_later (chr1 chr2 : Rows) {yc : Nat} (hyc : 0 < yc) (s : Chroma) (hi : i < p.width / 2) :
    (chroma p chr1 chr2 yc s).raw1 i = s.raw1 i := by
  unfold chroma
  split
  · refine loop_inv (fun _ (t : Chroma) => t.raw1 i = s.raw1 i) rfl fun j t _ ht => ?_
    exact (chromaRow_later hw (Nat.add_pos_left hyc j) hi _ _ t).trans ht
  · refine loop_inv (fun _ (t : Chroma) => t.raw1 i = s.raw1 i) rfl fun j t _ ht => ?_
    exact (chromaRow_later hw (Nat.add_pos_left hyc j) hi _ _ t).trans ht

/-- The first row of a block of chroma. -/
def firstChroma (p : Picture) (chr1 : Rows) (i : Nat) : UInt8 :=
  if p.vsf = 1 then half (chr1 0 i) (chr1 1 i) else chr1 0 i

theorem chroma_first (chr1 chr2 : Rows) (hroom : p.width / 2 ≤ p.width * p.height / 4) {s : Chroma}
    (hs : s.aborted = false) (hi : i < p.width / 2) :
    (chroma p chr1 chr2 0 s).raw1 i = some (firstChroma p chr1 i) := by
  have hrows : ∀ {n : Nat} (asserted : Bool) (u v : Nat → Nat → UInt8), 0 < n →
      (loop n (fun j => chromaRow p asserted (0 + j) (u j) (v j)) s).raw1 i = some (u 0 i) := by
    intro n asserted u v hn
    refine (loop_inv (fun j t => (0 = j → t = s) ∧ (0 < j → t.raw1 i = some (u 0 i)))
      ⟨fun _ => rfl, nofun⟩ ?_).2 hn
    rintro j t - ⟨hstart, hrest⟩
    refine ⟨nofun, fun _ => ?_⟩
    rw [Nat.zero_add]
    rcases Nat.eq_zero_or_pos j with rfl | hj
    · rw [hstart rfl]
      exact chromaRow_first asserted hroom _ _ hs hi
    · rw [chromaRow_later hw hj hi, hrest hj]
  unfold chroma firstChroma
  split
  · exact hrows true (fun j x => half (chr1 (2 * j) x) (chr1 (2 * j + 1) x)) _ (by decide)
  · exact hrows false chr1 chr2 (by decide)

theorem scan_later (jpeg : Jpeg) (k scanline : Nat) {d : Decoding} (hyl : 0 < d.yl) (hyc : 0 < d.yc) :
    (i < p.width → (scan p jpeg k scanline d).1.raw0 i = d.raw0 i) ∧
      (i < p.width / 2 → (scan p jpeg k scanline d).1.raw1 i = d.raw1 i) := by
  have hblock : ∀ (rows : Fin 3 → Rows) {d : Decoding}, 0 < d.yl → 0 < d.yc →
      (i < p.width → (block p rows d).1.raw0 i = d.raw0 i) ∧
        (i < p.width / 2 → (block p rows d).1.raw1 i = d.raw1 i) := fun rows d hyl hyc =>
    ⟨luma_later (rows 0) hyl, chroma_later hw _ _ hyc _⟩
  fun_induction scan p jpeg k scanline d with
  | case1 k scanline d hlt hnone => exact ⟨fun _ => rfl, fun _ => rfl⟩
  | case2 k scanline d hlt rows hsome hab => exact hblock rows hyl hyc
  | case3 k scanline d hlt rows hsome hab ih =>
    obtain ⟨h0, h1⟩ := hblock rows hyl hyc
    obtain ⟨ih0, ih1⟩ := ih (Nat.add_pos_left hyl _) (Nat.add_pos_left hyc _)
    exact ⟨fun hi => (ih0 hi).trans (h0 hi), fun hi => (ih1 hi).trans (h1 hi)⟩
  | case4 k scanline d hge => exact ⟨fun _ => rfl, fun _ => rfl⟩

/-- **The first rows of the planes are those of the first block.** -/
theorem decodeJpegRaw_first {jpeg : Jpeg} {hd : Header} {rows : Fin 3 → Rows} {width height : Nat}
    (hstart : jpeg.start = some hd) (hacc : accept hd width height = some p)
    (hdata : jpeg.rawData 0 = some rows) (hh : 2 ≤ p.height) (buf1 buf2 : Rows) :
    (i < p.width → (decodeJpegRaw jpeg buf1 buf2 width height).raw 0 i =
      lumaRow p (rows 0 0) 0 (fun _ => none) i) ∧
    (i < p.width / 2 → (decodeJpegRaw jpeg buf1 buf2 width height).raw 1 i =
      some (firstChroma p (chr p (if p.hsf = 1 then halved p (rows 1) buf1 else rows 1)) i)) := by
  have hroom : p.width / 2 ≤ p.width * p.height / 4 := by
    have htwo : p.width * 2 ≤ p.width * p.height := Nat.mul_le_mul_left _ hh
    omega
  have hlt : 0 < p.outputHeight := by rw [p.same_height]; omega
  simp only [decodeJpegRaw, hstart, hacc]
  generalize hd0 : (⟨fun _ => none, fun _ => none, fun _ => none, 0, 0, buf1, buf2⟩ : Decoding) = d
  have h0 : i < p.width → (block p rows d).1.raw0 i = lumaRow p (rows 0 0) 0 (fun _ => none) i := by
    subst hd0
    exact luma_first (rows 0) rfl
  have h1 : i < p.width / 2 → (block p rows d).1.raw1 i =
      some (firstChroma p (chr p (if p.hsf = 1 then halved p (rows 1) buf1 else rows 1)) i) := by
    subst hd0
    exact chroma_first hw _ _ hroom rfl
  have hyl : 0 < (block p rows d).1.yl := by
    change 0 < d.yl + 8 * p.vsf
    rcases p.vsf_cases with hv | hv <;> omega
  have hyc : 0 < (block p rows d).1.yc := by
    change 0 < d.yc + if p.vsf = 1 then 4 else 8
    split <;> omega
  rw [scan, if_pos hlt, hdata]
  dsimp only
  split
  · exact ⟨h0, h1⟩
  · obtain ⟨hl, hc⟩ := scan_later hw jpeg (0 + 1) (0 + 8 * p.vsf) (i := i) hyl hyc
    exact ⟨fun hi => (hl hi).trans (h0 hi), fun hi => (hc hi).trans (h1 hi)⟩

end First

/-! ## Frames with other samples among theirs -/

/-- The same frame in rows that hold `b` behind its samples. -/
def behind (jpeg : Jpeg) (hd : Header) (b : UInt8) : Jpeg :=
  { jpeg with rawData := fun k => (jpeg.rawData k).map fun rows j y x =>
      if x < hd.columns j then rows j y x else b }

theorem behind_same {jpeg : Jpeg} {hd : Header} (hstart : jpeg.start = some hd) (b : UInt8) :
    SameFrame jpeg (behind jpeg hd b) := by
  refine ⟨rfl, rfl, rfl, fun hd' hstart' k => ?_⟩
  obtain rfl := Option.some.inj (hstart.symm.trans hstart')
  simp only [behind]
  cases jpeg.rawData k with
  | none => exact .none
  | some rows => exact .some fun j y x hx => (if_pos hx).symm

theorem half_toNat (a b : UInt8) : (half a b).toNat = (a.toNat + b.toNat) / 2 := by
  have ha := a.toNat_lt
  have hb := b.toNat_lt
  rw [half, UInt8.toNat_ofNat', Nat.shiftRight_eq_div_pow]
  omega

theorem third_toNat (a b : UInt8) : (third a b).toNat = (2 * a.toNat + b.toNat) / 3 := by
  have ha := a.toNat_lt
  have hb := b.toNat_lt
  rw [third, UInt8.toNat_ofNat']
  omega

/-- The last sample of a row that is too wide. -/
theorem lumaRow_stale {rows : Rows} {b : UInt8} (hb : half b b = b)
    (hrows : ∀ y x, 8 * ((p.outputWidth + 7) / 8) ≤ x → rows y x = b) (hpos : 0 < p.width)
    (hwide : p.hdown = 0 ∧ 8 * ((p.outputWidth + 7) / 8) < p.width ∨
      p.hdown = 1 ∧ 8 * ((p.outputWidth + 7) / 8) < 2 * p.width) :
    lumaRow p (rows 0) 0 (fun _ => none) (p.width - 1) = some b := by
  unfold lumaRow
  rcases hwide with ⟨h0, hwide⟩ | ⟨h1, hwide⟩
  · have hxsl : p.xsl = 0 := by
      simp only [Picture.xsl, h0]
      split_ifs <;> omega
    rw [if_pos h0, loop_put, if_pos (by omega), hrows _ _ (by omega)]
  · have hxsl : p.xsl = 0 := by
      simp only [Picture.xsl, h1]
      split_ifs <;> omega
    rw [if_neg (by omega), if_pos h1, loop_put, if_pos (by omega), hrows _ _ (by omega),
      hrows _ _ (by omega), hb]

section Averages
variable (p) (wide : Rows) (y xs : Nat)

/-- What the rows held before does not make a sample smaller than 0 or larger than 255. -/
theorem halved_le : (halved p wide (fun _ _ => 0) y xs).toNat ≤
    (halved p wide (fun _ _ => 255) y xs).toNat := by
  unfold halved
  split
  · exact Nat.le_refl _
  · exact Nat.zero_le _

theorem halved_behind (hxs : p.xsc + p.width / 2 ≤ xs) (b : UInt8) :
    halved p wide (fun _ _ => b) y xs = b := by
  unfold halved
  rw [if_neg (by omega)]

/-- The last sample of a row that is downsampled once more. -/
theorem chr_apart (hdown : p.hdown ≠ 0) (hpos : 0 < p.width / 2) :
    (chr p (halved p wide fun _ _ => 0) y (p.width / 2 - 1)).toNat + 80 ≤
      (chr p (halved p wide fun _ _ => 255) y (p.width / 2 - 1)).toNat := by
  have hle := halved_le p wide y
  have hbehind : ∀ xs, p.xsc + p.width / 2 ≤ xs → ∀ b, halved p wide (fun _ _ => b) y xs = b :=
    halved_behind p wide y
  have h0 : (0 : UInt8).toNat = 0 := rfl
  have h255 : (255 : UInt8).toNat = 255 := rfl
  unfold chr
  rcases hdown_cases p with hz | h1 | h2
  · exact absurd hz hdown
  · simp only [h1, Nat.one_ne_zero, if_true, if_false, half_toNat]
    have hfirst := hle (p.xsc + 2 * (p.width / 2 - 1))
    rw [hbehind (p.xsc + 2 * (p.width / 2 - 1) + 1) (by omega),
      hbehind (p.xsc + 2 * (p.width / 2 - 1) + 1) (by omega), h0, h255]
    omega
  · simp only [h2, (by decide : (2 : Nat) ≠ 0), (by decide : (2 : Nat) ≠ 1), if_false]
    split
    · have hfirst := hle (p.xsc + 3 * ((p.width / 2 - 1) / 2))
      simp only [third_toNat]
      rw [hbehind (p.xsc + 3 * ((p.width / 2 - 1) / 2) + 1) (by omega),
        hbehind (p.xsc + 3 * ((p.width / 2 - 1) / 2) + 1) (by omega), h0, h255]
      omega
    · have hsecond := hle (p.xsc + 3 * ((p.width / 2 - 1) / 2) + 1)
      simp only [third_toNat]
      rw [hbehind (p.xsc + 3 * ((p.width / 2 - 1) / 2) + 2) (by omega),
        hbehind (p.xsc + 3 * ((p.width / 2 - 1) / 2) + 2) (by omega), h0, h255]
      omega

theorem firstChroma_apart (hdown : p.hdown ≠ 0) (hpos : 0 < p.width / 2) :
    firstChroma p (chr p (halved p wide fun _ _ => 0)) (p.width / 2 - 1) ≠
      firstChroma p (chr p (halved p wide fun _ _ => 255)) (p.width / 2 - 1) := by
  have hfirst := chr_apart p wide 0 hdown hpos
  have hsecond := chr_apart p wide 1 hdown hpos
  intro he
  have hn := congrArg UInt8.toNat he
  unfold firstChroma at hn
  split at hn
  · rw [half_toNat, half_toNat] at hn
    omega
  · omega

end Averages

/-- **Without fresh samples some byte depends on what the rows held before.** -/
theorem decodeJpegRaw_stale {jpeg : Jpeg} {hd : Header} {rows : Fin 3 → Rows} {width height : Nat}
    (hstart : jpeg.start = some hd) (hacc : accept hd width height = some p)
    (hdata : jpeg.rawData 0 = some rows) (hw : p.width % 2 = 0) (hpos : 0 < p.width)
    (hh : 2 ≤ p.height) (hfresh : ¬ Fresh p) :
    ∃ jpeg₀ jpeg₁ buf₀ buf₁, SameFrame jpeg jpeg₀ ∧ SameFrame jpeg jpeg₁ ∧
      ((decodeJpegRaw jpeg₀ buf₀ buf₀ width height).raw 0 (p.width - 1) ≠
          (decodeJpegRaw jpeg₁ buf₁ buf₁ width height).raw 0 (p.width - 1) ∨
        (decodeJpegRaw jpeg₀ buf₀ buf₀ width height).raw 1 (p.width / 2 - 1) ≠
          (decodeJpegRaw jpeg₁ buf₁ buf₁ width height).raw 1 (p.width / 2 - 1)) := by
  obtain ⟨hhsf, hcolumns⟩ := accept_columns hacc
  have hcases : (p.hdown = 0 ∧ 8 * ((p.outputWidth + 7) / 8) < p.width ∨
      p.hdown = 1 ∧ 8 * ((p.outputWidth + 7) / 8) < 2 * p.width) ∨ p.hsf = 1 ∧ p.hdown ≠ 0 := by
    unfold Fresh at hfresh
    by_cases h0 : p.hdown = 0
    · rw [if_pos h0] at hfresh
      exact .inl (.inl ⟨h0, by omega⟩)
    · rw [if_neg h0] at hfresh
      rcases hhsf with h1 | h2
      · exact .inr ⟨h1, h0⟩
      · by_cases h1 : p.hdown = 1
        · exact .inl (.inr ⟨h1, Nat.not_le.mp fun hle => hfresh ⟨h2, fun _ => hle⟩⟩)
        · exact absurd ⟨h2, fun h => absurd h h1⟩ hfresh
  rcases hcases with hwide | ⟨h1, hdown⟩
  · have hluma : ∀ b : UInt8, half b b = b → ∀ buf,
        (decodeJpegRaw (behind jpeg hd b) buf buf width height).raw 0 (p.width - 1) = some b := by
      intro b hb buf
      have hfirst : (behind jpeg hd b).rawData 0 =
          some fun j y x => if x < hd.columns j then rows j y x else b := by
        simp only [behind, hdata, Option.map_some]
      have hstart' : (behind jpeg hd b).start = some hd := hstart
      rw [(decodeJpegRaw_first hw hstart' hacc hfirst hh buf buf).1 (by omega)]
      refine @lumaRow_stale p (fun y x => if x < hd.columns 0 then rows 0 y x else b) b hb
        (fun y x hx => ?_) hpos hwide
      have hbehind : ¬ x < hd.columns 0 := by
        rw [hcolumns 0, columns, if_pos (.inl rfl)]
        omega
      exact if_neg hbehind
    refine ⟨behind jpeg hd 0, behind jpeg hd 255, fun _ _ => 0, fun _ _ => 0, behind_same hstart 0,
      behind_same hstart 255, .inl ?_⟩
    rw [hluma 0 (by decide), hluma 255 (by decide)]
    decide
  · refine ⟨jpeg, jpeg, fun _ _ => 0, fun _ _ => 255, .refl jpeg, .refl jpeg, .inr ?_⟩
    rw [(decodeJpegRaw_first hw hstart hacc hdata hh _ _).2 (by omega),
      (decodeJpegRaw_first hw hstart hacc hdata hh _ _).2 (by omega), if_pos h1, if_pos h1]
    exact fun he => firstChroma_apart p (rows 1) hdown (by omega) (Option.some.inj he)

end SmartPrince.Common.JpegSamples

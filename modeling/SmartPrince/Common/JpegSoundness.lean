import SmartPrince.Lib.Plane
import SmartPrince.Common.JpegUtils

/-! # The rows `decode_jpeg_raw` stores

Rows come in blocks, and a block is stored whole, whatever is left of the
height. -/
namespace SmartPrince.Common.JpegSoundness
open SmartPrince.Lib.Fill SmartPrince.Lib.Loop SmartPrince.Lib.Plane
open SmartPrince.Common.JpegUtils

variable (p : Picture)

/-! ## A row of luma -/

/-- The samples of a row that are stored. -/
def lumaLen : Nat := if p.hdown = 0 ∨ p.hdown = 1 then p.width else 2 * (p.width / 2)

/-- The first `n` rows of luma. -/
def lumaRows (n : Nat) : Set Nat := rows (· * p.width) (lumaLen p) n 0

variable {p} {n k : Nat} {raw0 : Nat → Option UInt8}

theorem lumaRow_filled (row : Nat → UInt8) (h : Filled (lumaRows p n) raw0) :
    Filled (lumaRows p (n + 1)) (lumaRow p row (n * p.width) raw0) := by
  rw [lumaRows] at h
  rw [lumaRows, ← rows_row]
  unfold lumaRow
  split
  · next h0 =>
    rw [show lumaLen p = p.width from if_pos (.inl h0)] at h ⊢
    exact loop_inv (fun x q => Filled (rows (· * p.width) p.width n x) q) h
      fun x q _ hq => hq.sample _
  · split
    · next h1 =>
      rw [show lumaLen p = p.width from if_pos (.inr h1)] at h ⊢
      exact loop_inv (fun x q => Filled (rows (· * p.width) p.width n x) q) h
        fun x q _ hq => hq.sample _
    · next h0 h1 =>
      rw [show lumaLen p = 2 * (p.width / 2) from if_neg fun h => h.elim h0 h1] at h ⊢
      -- two samples at a time
      exact loop_inv (fun x q => Filled (rows (· * p.width) (2 * (p.width / 2)) n (2 * x)) q) h
        fun x q _ hq => (hq.sample _).sample _

theorem luma_filled (row0 : Rows) {d : Decoding} (h : Filled (lumaRows p d.yl) d.raw0) :
    Filled (lumaRows p (d.yl + 8 * p.vsf)) (luma p row0 d).raw0 :=
  loop_inv (fun y q => Filled (lumaRows p (d.yl + y)) q) h fun y _ _ hq =>
    lumaRow_filled (row0 y) hq

/-! ## The rows of chroma -/

variable (p) in
/-- The first `n` rows of either chroma plane. -/
def chromaRows (n : Nat) : Set Nat := rows (· * p.width / 2) (p.width / 2) n 0

variable (p) in
/-- The chroma planes after `n` rows and `m` samples, unless an asserted index was too large. -/
inductive Stored (asserted : Bool) (n m : Nat) : Chroma → Prop
  | going {s : Chroma} (ha : s.aborted = false)
      (h1 : Filled (rows (· * p.width / 2) (p.width / 2) n m) s.raw1)
      (h2 : Filled (rows (· * p.width / 2) (p.width / 2) n m) s.raw2)
      (hin : asserted = true →
        ∀ i ∈ rows (· * p.width / 2) (p.width / 2) n m, i < p.width * p.height / 4) :
      Stored asserted n m s
  | past {s : Chroma} {i : Nat} (ha : s.aborted = true) (hasserted : asserted = true)
      (hi : i ∈ rows (· * p.width / 2) (p.width / 2) n m) (hpast : p.width * p.height / 4 ≤ i) :
      Stored asserted n m s

section Chroma
variable {asserted : Bool} {m : Nat} {s : Chroma}

theorem chromaSample_stored (h : Stored p asserted n m s) (u v : UInt8) :
    Stored p asserted n (m + 1) (chromaSample p asserted (n * p.width / 2 + m) u v s) := by
  have hnew : n * p.width / 2 + m ∈ rows (· * p.width / 2) (p.width / 2) n (m + 1) := by
    rw [rows_sample]
    exact Set.mem_insert _ _
  have hold : ∀ i ∈ rows (· * p.width / 2) (p.width / 2) n m,
      i ∈ rows (· * p.width / 2) (p.width / 2) n (m + 1) := fun i hi => by
    rw [rows_sample]
    exact Set.mem_insert_of_mem _ hi
  cases h with
  | going ha h1 h2 hin =>
    rw [chromaSample, if_neg (by simp [ha])]
    split
    · next hpast => exact .past rfl hpast.1 hnew (Nat.le_of_not_lt hpast.2)
    · next hok =>
      refine .going ha (h1.sample u) (h2.sample v) fun hasserted i hi => ?_
      rw [rows_sample] at hi
      rcases hi with rfl | hi
      · exact not_not.mp fun hlt => hok ⟨hasserted, hlt⟩
      · exact hin hasserted i hi
  | past ha hasserted hi hpast =>
    rw [chromaSample, if_pos ha]
    exact .past ha hasserted (hold _ hi) hpast

theorem chromaRow_stored (h : Stored p asserted n 0 s) (u v : Nat → UInt8) :
    Stored p asserted (n + 1) 0 (chromaRow p asserted n u v s) := by
  have hrow : Stored p asserted n (p.width / 2) (chromaRow p asserted n u v s) :=
    loop_inv (fun x t => Stored p asserted n x t) h fun x t _ ht => chromaSample_stored ht _ _
  cases hrow with
  | going ha h1 h2 hin =>
    rw [rows_row] at h1 h2 hin
    exact .going ha h1 h2 hin
  | past ha hasserted hi hpast =>
    rw [rows_row] at hi
    exact .past ha hasserted hi hpast

/-- A block has four rows of chroma for each 8 of luma. -/
theorem chroma_stored (chr1 chr2 : Rows) (h : Stored p (p.vsf = 1) n 0 s) :
    Stored p (p.vsf = 1) (n + 4 * p.vsf) 0 (chroma p chr1 chr2 n s) := by
  rw [chroma]
  rcases p.vsf_cases with hv | hv
  · rw [decide_eq_true hv] at h ⊢
    rw [if_pos hv, hv]
    exact loop_inv (fun j t => Stored p true (n + j) 0 t) h fun j t _ ht => chromaRow_stored ht _ _
  · have hv1 : p.vsf ≠ 1 := by omega
    rw [decide_eq_false hv1] at h ⊢
    rw [if_neg hv1, hv]
    exact loop_inv (fun j t => Stored p false (n + j) 0 t) h fun j t _ ht => chromaRow_stored ht _ _

end Chroma

/-! ## Blocks -/

variable (p) in
/-- After `k` blocks: whole rows in every plane, and no assertion has failed. -/
structure Scanned (k : Nat) (d : Decoding) : Prop where
  yl : d.yl = 8 * p.vsf * k
  yc : d.yc = 4 * p.vsf * k
  luma : Filled (lumaRows p (8 * p.vsf * k)) d.raw0
  chroma1 : Filled (chromaRows p (4 * p.vsf * k)) d.raw1
  chroma2 : Filled (chromaRows p (4 * p.vsf * k)) d.raw2
  inside : p.vsf = 1 → ∀ i ∈ chromaRows p (4 * p.vsf * k), i < p.width * p.height / 4

theorem scanned_start (buf1 buf2 : Rows) :
    Scanned p 0 ⟨fun _ => none, fun _ => none, fun _ => none, 0, 0, buf1, buf2⟩ where
  yl := rfl
  yc := rfl
  luma := by rw [Nat.mul_zero, lumaRows, rows_zero]; exact filled_none
  chroma1 := by rw [Nat.mul_zero, chromaRows, rows_zero]; exact filled_none
  chroma2 := by rw [Nat.mul_zero, chromaRows, rows_zero]; exact filled_none
  inside _ i hi := by rw [Nat.mul_zero, chromaRows, rows_zero] at hi; cases hi

/-- The block's luma is stored before an assertion fails. -/
theorem block_scanned (data : Fin 3 → Rows) {d : Decoding} (h : Scanned p k d) :
    Filled (lumaRows p (8 * p.vsf * (k + 1))) (block p data d).1.raw0 ∧
      if (block p data d).2 then
        p.vsf = 1 ∧ ∃ i ∈ chromaRows p (4 * p.vsf * (k + 1)), p.width * p.height / 4 ≤ i
      else Scanned p (k + 1) (block p data d).1 := by
  have hluma := luma_filled (data 0) (h.yl ▸ h.luma)
  rw [h.yl, ← Nat.mul_succ] at hluma
  have hchroma : Stored p (p.vsf = 1) (4 * p.vsf * (k + 1)) 0
      ⟨(block p data d).1.raw1, (block p data d).1.raw2, (block p data d).2⟩ := by
    have hstart : Stored p (p.vsf = 1) (4 * p.vsf * k) 0 ⟨d.raw1, d.raw2, false⟩ :=
      .going rfl h.chroma1 h.chroma2 fun hv => h.inside (of_decide_eq_true hv)
    rw [← h.yc] at hstart
    rw [Nat.mul_succ, ← h.yc]
    exact chroma_stored _ _ hstart
  have hyc : (block p data d).1.yc = 4 * p.vsf * (k + 1) := by
    show d.yc + (if p.vsf = 1 then 4 else 8) = _
    rw [h.yc, Nat.mul_succ]
    rcases p.vsf_cases with hv | hv <;> rw [hv] <;> rfl
  have hyl : (block p data d).1.yl = 8 * p.vsf * (k + 1) := by
    show d.yl + 8 * p.vsf = _
    rw [h.yl, Nat.mul_succ]
  refine ⟨hluma, ?_⟩
  cases hchroma with
  | going ha h1 h2 hin =>
    rw [if_neg (Bool.eq_false_iff.mp ha)]
    exact ⟨hyl, hyc, hluma, h1, h2, fun hv => hin (decide_eq_true hv)⟩
  | past ha hv hi hpast =>
    rw [if_pos ha]
    exact ⟨of_decide_eq_true hv, _, hi, hpast⟩

/-! ## The scan -/

variable (p) in
/-- All that can become of a picture that was accepted, by the number of blocks stored. -/
inductive Ended (jpeg : Jpeg) : Decoding → Stop → Prop
  | error {k : Nat} {d : Decoding} (hk : 8 * p.vsf * k < p.height)
      (hnone : jpeg.rawData k = none) (hs : Scanned p k d) : Ended jpeg d .error
  | aborted {k i : Nat} {d : Decoding} (hk : 8 * p.vsf * k < p.height)
      (hdata : ∀ j, j < k + 1 → jpeg.rawData j ≠ none)
      (hluma : Filled (lumaRows p (8 * p.vsf * (k + 1))) d.raw0) (hv : p.vsf = 1)
      (hi : i ∈ chromaRows p (4 * p.vsf * (k + 1))) (hpast : p.width * p.height / 4 ≤ i) :
      Ended jpeg d .aborted
  | done {k : Nat} {d : Decoding} (hk : p.height ≤ 8 * p.vsf * k)
      (hlast : ∀ j, j < k → 8 * p.vsf * j < p.height)
      (hdata : ∀ j, j < k → jpeg.rawData j ≠ none) (hs : Scanned p k d) : Ended jpeg d .done

theorem scan_ended (jpeg : Jpeg) {scanline : Nat} {d : Decoding} (hs : Scanned p k d)
    (hline : scanline = 8 * p.vsf * k) (hlast : ∀ j, j < k → 8 * p.vsf * j < p.height)
    (hdata : ∀ j, j < k → jpeg.rawData j ≠ none) :
    Ended p jpeg (scan p jpeg k scanline d).1 (scan p jpeg k scanline d).2 := by
  have hnext : ∀ {k : Nat} {P : Nat → Prop}, (∀ j, j < k → P j) → P k → ∀ j, j < k + 1 → P j :=
    fun hbefore hk j hj => (Nat.lt_succ_iff_lt_or_eq.mp hj).elim (hbefore j) fun he => he ▸ hk
  fun_induction scan p jpeg k scanline d with
  | case1 k scanline d hlt hnone =>
    rw [hline, p.same_height] at hlt
    exact .error hlt hnone hs
  | case2 k scanline d hlt data hsome hab =>
    rw [hline, p.same_height] at hlt
    have hblock := block_scanned data hs
    rw [if_pos hab] at hblock
    obtain ⟨hluma, hv, i, hi, hpast⟩ := hblock
    exact .aborted hlt (hnext hdata (by simp [hsome])) hluma hv hi hpast
  | case3 k scanline d hlt data hsome hab ih =>
    rw [hline, p.same_height] at hlt
    have hblock := (block_scanned data hs).2
    rw [if_neg hab] at hblock
    exact ih hblock (by rw [hline, Nat.mul_succ]) (hnext hlast hlt) (hnext hdata (by simp [hsome]))
  | case4 k scanline d hge =>
    rw [hline, p.same_height] at hge
    exact .done (Nat.le_of_not_lt hge) hlast hdata hs

/-! ## The planes `mjpegtoyuv420p` allocates -/

/-- Every index stored is one of the planes'. -/
structure InBounds (raw : Fin 3 → Nat → Option UInt8) (width height : Nat) : Prop where
  luma : ∀ i, (raw 0 i).isSome → i < width * height
  chroma1 : ∀ i, (raw 1 i).isSome → i < width * height / 4
  chroma2 : ∀ i, (raw 2 i).isSome → i < width * height / 4

theorem lumaLen_le : lumaLen p ≤ p.width := by
  unfold lumaLen
  split <;> omega

/-- Rows within the height are within the plane. -/
theorem lumaRows_lt (hn : n ≤ p.height) : ∀ i ∈ lumaRows p n, i < p.width * p.height := by
  intro i hi
  obtain ⟨r, x, hr, hx, rfl⟩ := mem_rows.mp hi
  exact site_lt (Nat.lt_of_lt_of_le hx lumaLen_le) (Nat.lt_of_lt_of_le hr hn)

theorem lumaRows_empty (h0 : p.width = 0) (i : Nat) : i ∉ lumaRows p n := fun hi => by
  obtain ⟨r, x, -, hx, -⟩ := mem_rows.mp hi
  have := lumaLen_le (p := p)
  omega

theorem chromaRows_empty (h0 : p.width = 0) (i : Nat) : i ∉ chromaRows p n := fun hi => by
  obtain ⟨r, x, -, hx, -⟩ := mem_rows.mp hi
  omega

theorem chromaRows_lt (hn : 2 * n ≤ p.height) :
    ∀ i ∈ chromaRows p n, i < p.width * p.height / 4 := by
  intro i hi
  obtain ⟨r, x, hr, hx, rfl⟩ := mem_rows.mp hi
  have hrow : 2 * (r * p.width / 2) ≤ r * p.width := Nat.mul_div_le _ _
  have hrows : 2 * (r * p.width) + 2 * p.width ≤ p.width * p.height := by
    calc 2 * (r * p.width) + 2 * p.width = p.width * (2 * (r + 1)) := by ring
      _ ≤ p.width * p.height := Nat.mul_le_mul_left _ (by omega)
  omega

/-- An asserted index is too large in the last block only. -/
theorem overrun_last {i : Nat} (hv : p.vsf = 1) (hi : i ∈ chromaRows p (4 * p.vsf * (k + 1)))
    (hpast : p.width * p.height / 4 ≤ i) : p.height < 8 * p.vsf * (k + 1) := by
  by_contra hle
  have hlt := chromaRows_lt (by rw [hv] at hle ⊢; omega) i hi
  omega

theorem lumaLen_pos (h : 2 ≤ p.width) : 0 < lumaLen p := by
  unfold lumaLen
  split <;> omega

/-- A row below the height is stored right behind the plane. -/
theorem lumaRows_behind (hn : p.height < n) (hlen : 0 < lumaLen p) :
    p.width * p.height ∈ lumaRows p n :=
  mem_rows.mpr ⟨p.height, 0, hn, hlen, Nat.mul_comm _ _⟩

/-- Where the blocks of rows fit: the height is a multiple of theirs, there is
nothing to store, or libjpeg gives up before the last block. -/
def Fits (p : Picture) (jpeg : Jpeg) : Prop :=
  p.height % (8 * p.vsf) = 0 ∨ p.width = 0 ∨
    ∃ k, 8 * p.vsf * k < p.height ∧ jpeg.rawData k = none

section Fits
variable {jpeg : Jpeg} {d : Decoding}

theorem scanned_inBounds (hs : Scanned p k d) (hk : 8 * p.vsf * k ≤ p.height) :
    InBounds d.raw p.width p.height := by
  have h2 : 2 * (4 * p.vsf * k) ≤ p.height := by rwa [← Nat.mul_assoc, ← Nat.mul_assoc]
  exact {
    luma := fun i hi => lumaRows_lt hk i ((hs.luma i).mp hi)
    chroma1 := fun i hi => chromaRows_lt h2 i ((hs.chroma1 i).mp hi)
    chroma2 := fun i hi => chromaRows_lt h2 i ((hs.chroma2 i).mp hi) }

theorem not_inBounds (hl : Filled (lumaRows p n) d.raw0) (hn : p.height < n)
    (hlen : 0 < lumaLen p) : ¬ InBounds d.raw p.width p.height := fun hin =>
  Nat.lt_irrefl _ (hin.luma _ ((hl _).mpr (lumaRows_behind hn hlen)))

theorem mod_of_inBounds (hl : Filled (lumaRows p (8 * p.vsf * k)) d.raw0) (hk : p.height ≤ 8 * p.vsf * k)
    (hlen : 0 < lumaLen p) (hin : InBounds d.raw p.width p.height) : p.height % (8 * p.vsf) = 0 := by
  by_contra hmod
  have hbehind : p.height < 8 * p.vsf * k :=
    Nat.lt_of_le_of_ne hk fun he => hmod (by rw [he, Nat.mul_mod_right])
  exact not_inBounds hl hbehind hlen hin

/-- Whole blocks of rows end where the height does. -/
theorem done_height (hlast : ∀ j, j < k → 8 * p.vsf * j < p.height)
    (hmod : p.height % (8 * p.vsf) = 0) : 8 * p.vsf * k ≤ p.height := by
  cases k with
  | zero => exact Nat.zero_le _
  | succ k =>
    have hk := hlast k (Nat.lt_succ_self k)
    obtain ⟨q, hq⟩ := Nat.dvd_of_mod_eq_zero hmod
    rw [hq] at hk ⊢
    exact Nat.mul_le_mul_left _ (Nat.lt_of_mul_lt_mul_left hk)

theorem inBounds_iff_fits {stop : Stop} (hw : p.width % 2 = 0) (hd : Ended p jpeg d stop) :
    InBounds d.raw p.width p.height ↔ Fits p jpeg := by
  cases hd with
  | error hk hnone hs =>
    exact iff_of_true (scanned_inBounds hs hk.le) (.inr (.inr ⟨_, hk, hnone⟩))
  | @aborted k i _ hk hdata hluma hv hi hpast =>
    have hbehind := overrun_last hv hi hpast
    have hpos : p.width ≠ 0 := by
      obtain ⟨r, x, -, hx, -⟩ := mem_rows.mp hi
      omega
    refine iff_of_false (not_inBounds hluma hbehind (lumaLen_pos (by omega))) ?_
    rw [hv] at hk hbehind
    rintro (h0 | h0 | ⟨j, hj, hnone⟩)
    · rw [hv] at h0
      omega
    · exact hpos h0
    · rw [hv] at hj
      exact hdata j (by omega) hnone
  | @done k _ hk hlast hdata hs =>
    by_cases hmod : p.height % (8 * p.vsf) = 0
    · exact iff_of_true (scanned_inBounds hs (done_height hlast hmod)) (.inl hmod)
    by_cases hpos : p.width = 0
    · refine iff_of_true ⟨fun i hi => ?_, fun i hi => ?_, fun i hi => ?_⟩ (.inr (.inl hpos))
      · exact absurd ((hs.luma i).mp hi) (lumaRows_empty hpos i)
      · exact absurd ((hs.chroma1 i).mp hi) (chromaRows_empty hpos i)
      · exact absurd ((hs.chroma2 i).mp hi) (chromaRows_empty hpos i)
    · refine iff_of_false (fun hin => hmod (mod_of_inBounds hs.luma hk (lumaLen_pos (by omega)) hin)) ?_
      rintro (h0 | h0 | ⟨j, hj, hnone⟩)
      · exact hmod h0
      · exact hpos h0
      · exact hdata j (Nat.lt_of_mul_lt_mul_left (hj.trans_le hk)) hnone

end Fits

/-! ## A call -/

/-- The picture has the dimensions requested and the header's sampling. -/
theorem accept_some {hd : Header} {width height : Nat} (h : accept hd width height = some p) :
    p.width = width ∧ p.height = height ∧ p.hsf = hd.hSampFactor 0 ∧ p.vsf = hd.vSampFactor 0 ∧
      p.outputWidth = hd.outputWidth := by
  unfold accept at h
  split_ifs at h
  cases h
  exact ⟨rfl, rfl, rfl, rfl, rfl⟩

/-- What a call leaves is where its scan ends. -/
theorem decodeJpegRaw_ended (jpeg : Jpeg) {hd : Header} {width height : Nat}
    (hstart : jpeg.start = some hd) (hacc : accept hd width height = some p) (buf1 buf2 : Rows) :
    ∃ d stop, Ended p jpeg d stop ∧
      decodeJpegRaw jpeg buf1 buf2 width height = ⟨d.raw, returned jpeg stop⟩ := by
  have hended := scan_ended jpeg (scanned_start (p := p) buf1 buf2) (Nat.mul_zero _).symm
    (by simp) (by simp)
  refine ⟨_, _, hended, ?_⟩
  simp only [decodeJpegRaw, hstart, hacc]

/-- **What is stored stays in the planes exactly if the height is a multiple of
the rows of a block**, there is nothing to store, or libjpeg gives up before the
last block. -/
theorem jpeg_in_bounds_iff (jpeg : Jpeg) (buf1 buf2 : Rows) {hd : Header} {width height : Nat}
    (hw : width % 2 = 0) (hstart : jpeg.start = some hd)
    (hacc : (accept hd width height).isSome) :
    InBounds (decodeJpegRaw jpeg buf1 buf2 width height).raw width height ↔
      height % (8 * hd.vSampFactor 0) = 0 ∨ width = 0 ∨
        ∃ k, 8 * hd.vSampFactor 0 * k < height ∧ jpeg.rawData k = none := by
  obtain ⟨p, hp⟩ := Option.isSome_iff_exists.mp hacc
  obtain ⟨d, stop, hended, hdec⟩ := decodeJpegRaw_ended jpeg hstart hp buf1 buf2
  obtain ⟨rfl, rfl, -, hv, -⟩ := accept_some hp
  rw [hdec, ← hv]
  exact inBounds_iff_fits hw hended

/-- Luma is sampled twice in either direction. -/
def factors420 (k : Fin 3) : Nat := if k = 0 then 2 else 1

/-- A camera's frame: 4:2:0 sampling, and every row delivered. -/
def camera420 (width height : Nat) : Jpeg where
  start := some ⟨3, factors420, factors420, width, height⟩
  rawData _ := some fun _ _ _ => 128
  finish := true
  warningSeen := false

/-- Static rows before the first call. -/
def zeroRows : Rows := fun _ _ => 0

theorem jpeg_in_bounds_vga :
    InBounds (decodeJpegRaw (camera420 640 480) zeroRows zeroRows 640 480).raw 640 480 ↔
      480 % (8 * 2) = 0 ∨ 640 = 0 ∨
        ∃ k, 8 * 2 * k < 480 ∧ (camera420 640 480).rawData k = none :=
  jpeg_in_bounds_iff (camera420 640 480) zeroRows zeroRows (by decide) rfl (by decide)

/-- 120 rows are no multiple of 16: the last block stores 8 rows too many. -/
theorem jpeg_overruns :
    ¬ InBounds (decodeJpegRaw (camera420 160 120) zeroRows zeroRows 160 120).raw 160 120 := by
  obtain ⟨p, hp⟩ : ∃ p, accept ⟨3, factors420, factors420, 160, 120⟩ 160 120 = some p :=
    Option.isSome_iff_exists.mp (by decide)
  obtain ⟨d, stop, hended, hdec⟩ :=
    decodeJpegRaw_ended (camera420 160 120) rfl hp zeroRows zeroRows
  obtain ⟨hwidth, hheight, -, hv, -⟩ := accept_some hp
  have hfits := inBounds_iff_fits (by rw [hwidth]) hended
  rw [hwidth, hheight] at hfits
  rw [hdec, hfits, Fits, hwidth, hheight, hv]
  rintro (h0 | h0 | ⟨k, -, hnone⟩)
  · exact absurd h0 (by decide)
  · exact absurd h0 (by decide)
  · cases hnone

end SmartPrince.Common.JpegSoundness
